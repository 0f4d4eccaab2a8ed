/-!
White space: trimming, words, and lists written with commas. A blank is a character with the Unicode
property White_Space.
-/
namespace ExtensionLint.Text

/-- The characters with the property White_Space. -/
def isBlank (c : Char) : Bool :=
  let n := c.toNat
  (0x09 ≤ n && n ≤ 0x0D) || n == 0x20 || n == 0x85 || n == 0xA0 || n == 0x1680 ||
    (0x2000 ≤ n && n ≤ 0x200A) || n == 0x2028 || n == 0x2029 || n == 0x202F || n == 0x205F ||
    n == 0x3000

def trimStart (s : List Char) : List Char := s.dropWhile isBlank

def trimEnd (s : List Char) : List Char := (s.reverse.dropWhile isBlank).reverse

def trim (s : List Char) : List Char := trimEnd (trimStart s)

/-- Cuts a text at each separator; `part` and `done` hold, reversed, what has been read. -/
def cutAt (separates : Char → Bool) :
    List Char → (part : List Char) → (done : List (List Char)) → List (List Char)
  | [], part, done => (part.reverse :: done).reverse
  | c :: s, part, done =>
    if separates c then cutAt separates s [] (part.reverse :: done)
    else cutAt separates s (c :: part) done

/-- The parts of a text between separators, the empty ones included. -/
def parts (separates : Char → Bool) (s : List Char) : List (List Char) := cutAt separates s [] []

/-- The maximal runs of characters that are not blank. -/
def words (s : List Char) : List (List Char) :=
  (parts isBlank s).filter fun w => !w.isEmpty

def collapse (s : List Char) : List Char := [' '].intercalate (words s)

/-- The trimmed items of a list written with commas; blank items are dropped. -/
def items (s : List Char) : List (List Char) :=
  ((parts (· == ',') s).map trim).filter fun item => !item.isEmpty

def trimmed (s : String) : String := String.ofList (trim s.toList)

def listItems (s : String) : List String := (items s.toList).map String.ofList

end ExtensionLint.Text
