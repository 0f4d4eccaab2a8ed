import ExtensionLint.Data.Json
import ExtensionLint.Markup.Prolog

/-! References in text and in the values of attributes. -/
namespace ExtensionLint.Markup

open Text

inductive Piece
  | plain (c : Char)
  | char (c : Char)
  | entity (name : List Char)
  deriving DecidableEq, Repr

/-- Entities that need no declaration. -/
def predefined : List (List Char × Char) :=
  [("quot".toList, '"'), ("amp".toList, '&'), ("apos".toList, '\''), ("lt".toList, '<'),
    ("gt".toList, '>')]

/-- The character of a code point; U+FFFD stands for those that have none. -/
def charOf (n : Nat) : Char := if n.isValidChar then Char.ofNat n else '\uFFFD'

def number? (s : List Char) : Option (Nat × List Char) :=
  match s with
  | 'x' :: t =>
    let (digits, rest) := t.span fun c => (Data.Json.hexDigit? c).isSome
    if digits.isEmpty then none else (Data.Json.hex? digits).map fun n => (n, rest)
  | t =>
    let (digits, rest) := t.span Char.isDigit
    if digits.isEmpty then none else some (Data.decimal digits, rest)

def reference? (s : List Char) : Option (Piece × List Char) := do
  let (piece, s) ← match s with
    | '#' :: t => do
      let (n, rest) ← number? t
      if n < UInt32.size ∧ isAllowed (charOf n) = true then some (Piece.char (charOf n), rest) else none
    | t => do
      let (name, rest) ← plainName? t
      match predefined.lookup name with
      | some c => some (Piece.char c, rest)
      | none => some (Piece.entity name, rest)
  let rest ← after? [';'] s
  return (piece, rest)

/-- Takes a text apart; the first argument bounds the steps. -/
def piecesFrom : Nat → List Char → (done : List Piece) → Option (List Piece)
  | 0, _, _ => none
  | _, [], done => some done.reverse
  | n + 1, '&' :: s, done =>
    match reference? s with
    | some (piece, rest) => piecesFrom n rest (piece :: done)
    | none => none
  | n + 1, c :: s, done => piecesFrom n s (.plain c :: done)

def pieces? (s : List Char) : Option (List Piece) := piecesFrom (s.length + 1) s []

end ExtensionLint.Markup
