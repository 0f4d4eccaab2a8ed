/-! Sets of code points given by their ranges. -/
namespace ExtensionLint.Text

/-- A set of code points: the first and the last of each range. -/
abbrev Ranges := List (Nat × Nat)

def Ranges.has (table : Ranges) (n : Nat) : Bool :=
  table.any fun r => r.1 ≤ n && n ≤ r.2

end ExtensionLint.Text
