/-! Looking for one text inside another. -/
namespace ExtensionLint.Text

def startsWith (text start : List Char) : Bool := start.isPrefixOf text

def after? (start text : List Char) : Option (List Char) := start.isPrefixOf? text

/-- Offset of the first place where the pattern occurs, counted from `offset`. -/
def indexFrom (pattern : List Char) : List Char → (offset : Nat) → Option Nat
  | [], offset => if pattern.isEmpty then some offset else none
  | c :: s, offset =>
    if startsWith (c :: s) pattern then some offset else indexFrom pattern s (offset + 1)

def index? (pattern text : List Char) : Option Nat := indexFrom pattern text 0

def occurs (pattern text : List Char) : Bool := (index? pattern text).isSome

def lowerAscii (s : List Char) : List Char := s.map Char.toLower

/-- Whether two texts differ at most in the case of ASCII letters. -/
def eqIgnoringAsciiCase (s t : List Char) : Bool := lowerAscii s == lowerAscii t

end ExtensionLint.Text
