import ExtensionLint.Text.LetterCase

/-!
Patterns to search a text for. A pattern is written as alternatives with bars between them; a backslash
lets the operator behind it stand for itself. No other operators are understood.
-/
namespace ExtensionLint.Text

structure Pattern where
  alternatives : List (List Char)
  deriving DecidableEq, Repr

namespace Pattern

/-- Characters that do not stand for themselves in a written pattern. -/
def operators : List Char := "\\.+*?()|[]\x7b\x7d^$#&-~".toList

/-- A text as it is written in a pattern. -/
def escaped (text : List Char) : List Char :=
  text.flatMap fun c => if operators.contains c then ['\\', c] else [c]

/-- The written pattern that has the texts as its alternatives. -/
def anyOf (texts : List (List Char)) : List Char := ['|'].intercalate (texts.map escaped)

/-- Reads the alternatives; `text` and `done` hold, reversed, what has been read. -/
def readFrom? : List Char → (text : List Char) → (done : List (List Char)) →
    Option (List (List Char))
  | [], text, done => some (text.reverse :: done).reverse
  | '\\' :: c :: s, text, done =>
    if operators.contains c then readFrom? s (c :: text) done else none
  | c :: s, text, done =>
    if c = '|' then readFrom? s [] (text.reverse :: done)
    else if operators.contains c then none
    else readFrom? s (c :: text) done

/-- Reads a written pattern, unless it has operators that are not understood. -/
def read? (written : List Char) : Option Pattern := (readFrom? written [] []).map Pattern.mk

/-- The start of the text that equals an alternative up to case. -/
def matchAt? (alternative text : List Char) : Option (List Char) :=
  let start := text.take alternative.length
  if start.map fold = alternative.map fold then some start else none

/-- The start of the text that the pattern matches; the first alternative that matches counts. -/
def matchStart? (p : Pattern) (text : List Char) : Option (List Char) :=
  p.alternatives.findSome? (matchAt? · text)

/-- The leftmost part of the text that the pattern matches. -/
def find? (p : Pattern) : List Char → Option (List Char)
  | [] => p.matchStart? []
  | c :: s => (p.matchStart? (c :: s)).or (p.find? s)

end Pattern
end ExtensionLint.Text
