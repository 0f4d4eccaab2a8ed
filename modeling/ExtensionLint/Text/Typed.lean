import ExtensionLint.Data.Magnitude
import ExtensionLint.Text.Blank

/-! Numbers and truth values as users type them. -/
namespace ExtensionLint.Text

/-- Reads an unsigned integer of 64 bits: digits, before which one plus may stand. -/
def natural? (s : String) : Option Nat :=
  let digits := match s.toList with
    | '+' :: t => t
    | t => t
  let n := Data.decimal digits
  if !digits.isEmpty ∧ digits.all Char.isDigit = true ∧ n < UInt64.size then some n else none

def truth? (s : String) : Option Bool :=
  if s = "true" then some true else if s = "false" then some false else none

end ExtensionLint.Text
