import ExtensionLint.Data.Toml.Scalar
import ExtensionLint.Data.Toml.Tables

/-!
TOML documents: a reader for the whole grammar. Lists and tables within values may go over several
lines and be nested up to a limit.
-/
namespace ExtensionLint.Data.Toml

/-- In a record, the name of a choice may stand beside an empty table or list; lists may have surplus
items. -/
def dialect : Dialect where
  idlePayload
    | .table [] => true
    | .list [] => true
    | _ => false
  surplusItems := true

/-- How deep lists and tables within a value may be nested. -/
def mostLevels : Nat := 80

/-- The rest after a comment, which ends before a line end or with the document. -/
def afterComment? (s : List Char) : Option (List Char) :=
  let rest := s.dropWhile isPlain
  if rest.isEmpty ∨ (afterNewline? rest).isSome then some rest else none

/-- The rest after blanks, line ends and comments; the first argument bounds the steps. -/
def skipVoidFrom : Nat → List Char → Option (List Char)
  | 0, _ => none
  | n + 1, s =>
    match skipGap s with
    | '#' :: t => (afterComment? t).bind (skipVoidFrom n)
    | t =>
      match afterNewline? t with
      | some rest => skipVoidFrom n rest
      | none => some t

def skipVoid (s : List Char) : Option (List Char) := skipVoidFrom (2 * s.length + 1) s

def isKeyChar (c : Char) : Bool := c.isAlphanum || c == '_' || c == '-'

def keyPart? (s : List Char) : Option (String × List Char) :=
  match s.span isKeyChar with
  | ([], rest) => (lineString? rest).map fun (text, rest) => (String.ofList text, rest)
  | (text, rest) => some (String.ofList text, rest)

def mostKeyParts : Nat := 80

/-- Reads a key with the blanks around it; the first argument bounds the number of its parts. -/
def keyFrom : Nat → List Char → (done : List String) → Option (List String × List Char)
  | 0, _, _ => none
  | n + 1, s, done =>
    match keyPart? (skipGap s) with
    | none => none
    | some (part, rest) =>
      match skipGap rest with
      | '.' :: rest => keyFrom n rest (part :: done)
      | rest => some ((part :: done).reverse, rest)

def key? (s : List Char) : Option (List String × List Char) := keyFrom mostKeyParts s []

/-- Reads a key and its equals sign in a table within a value, with all that is void around the sign. -/
def assignment? (s : List Char) : Option (List String × List Char) := do
  let (path, s) ← key? s
  match ← skipVoid s with
  | '=' :: s => return (path, ← skipVoid s)
  | _ => none

mutual
/-- Reads a value; the first argument bounds the steps, and `levels` the nesting. -/
def value : Nat → (levels : Nat) → List Char → Option (Value × List Char)
  | 0, _, _ => none
  | _, 0, '[' :: _ => none
  | _, 0, '\x7b' :: _ => none
  | n + 1, levels + 1, '[' :: s => listItems n levels s []
  | n + 1, levels + 1, '\x7b' :: s => tableEntries n levels s []
  | _, _, s => scalar? s

def listItems : Nat → (levels : Nat) → List Char → (done : List Value) → Option (Value × List Char)
  | 0, _, _, _ => none
  | n + 1, levels, s, done =>
    match skipVoid s with
    | none => none
    | some (']' :: rest) => some (.list done.reverse, rest)
    | some s =>
      match value n levels s with
      | none => none
      | some (v, s) =>
        match skipVoid s with
        | some (',' :: rest) => listItems n levels rest (v :: done)
        | some (']' :: rest) => some (.list (v :: done).reverse, rest)
        | _ => none

/-- Reads the entries of a table within a value up to its end. An equals sign may stand on a line of its
own. -/
def tableEntries : Nat → (levels : Nat) → List Char → (done : Entries) → Option (Value × List Char)
  | 0, _, _, _ => none
  | n + 1, levels, s, done =>
    match skipVoid s with
    | none => none
    | some ('\x7d' :: rest) => some (.table (entryValues done), rest)
    | some s =>
      match assignment? s with
      | none => none
      | some (path, s) =>
        match value n levels s with
        | none => none
        | some (v, s) =>
          match define path v .header done, skipVoid s with
          | some es, some (',' :: rest) => tableEntries n levels rest es
          | some es, some ('\x7d' :: rest) => some (.table (entryValues es), rest)
          | _, _ => none
end

/-- A document in part: its tables, and the header that is in force. -/
structure Draft where
  root : Entries := []
  header : List String := []

namespace Draft

def header? (d : Draft) (s : List Char) : Option (Draft × List Char) :=
  match s with
  | '[' :: s =>
    match key? s with
    | some (path, ']' :: ']' :: rest) => (openNext path d.root).map fun root => (⟨root, path⟩, rest)
    | _ => none
  | s =>
    match key? s with
    | some (path, ']' :: rest) => (openTable path d.root).map fun root => (⟨root, path⟩, rest)
    | _ => none

def entryOf? (d : Draft) (s : List Char) : Option (Draft × List Char) :=
  match key? s with
  | some (path, '=' :: s) =>
    match value (2 * s.length + 2) mostLevels (skipGap s) with
    | none => none
    | some (v, rest) =>
      (within .implied (define path v) d.header .header d.root).map fun root =>
        ({ d with root }, rest)
  | _ => none

def statement? (d : Draft) : List Char → Option (Draft × List Char)
  | '[' :: s => d.header? s
  | s => d.entryOf? s

/-- The rest after blanks, a comment and the end of a line or document. -/
def afterLine? (s : List Char) : Option (List Char) :=
  let rest := match skipGap s with
    | '#' :: t => afterComment? t
    | t => some t
  match rest with
  | some [] => some []
  | some rest => afterNewline? rest
  | none => none

def statements : Nat → Draft → List Char → Option Draft
  | 0, _, _ => none
  | n + 1, d, s =>
    match skipVoid s with
    | none => none
    | some [] => some d
    | some s =>
      match d.statement? s with
      | none => none
      | some (d, s) => (afterLine? s).bind (statements n d)

end Draft

/-- Reads a document; a byte order mark at its start does not count. -/
def read? (s : List Char) : Option Value :=
  let text := match s with
    | '\uFEFF' :: t => t
    | t => t
  (Draft.statements (text.length + 1) {} text).map fun d => .table (entryValues d.root)

end ExtensionLint.Data.Toml
