import ExtensionLint.Data.Value
import ExtensionLint.Data.Magnitude

/-!
JSON documents: a reader for the whole grammar, and writers in compact and indented form. Reading
what either writer produced gives the value back.
-/
namespace ExtensionLint.Data.Json

/-- In a record, the name of a choice may stand beside a null; lists have no surplus items. -/
def dialect : Dialect where
  idlePayload
    | .null => true
    | _ => false
  surplusItems := false

def isSpace (c : Char) : Bool := c == ' ' || c == '\n' || c == '\t' || c == '\r'

def skipSpace (s : List Char) : List Char := s.dropWhile isSpace

def hexDigit? (c : Char) : Option Nat :=
  if '0' ≤ c ∧ c ≤ '9' then some (c.toNat - '0'.toNat)
  else if 'a' ≤ c ∧ c ≤ 'f' then some (c.toNat - 'a'.toNat + 10)
  else if 'A' ≤ c ∧ c ≤ 'F' then some (c.toNat - 'A'.toNat + 10)
  else none

def hex? (digits : List Char) : Option Nat :=
  digits.foldlM (fun n c => (hexDigit? c).map (n * 16 + ·)) 0

def escape? : Char → Option Char
  | '"' => some '"'
  | '\\' => some '\\'
  | '/' => some '/'
  | 'b' => some '\x08'
  | 'f' => some '\x0c'
  | 'n' => some '\n'
  | 'r' => some '\r'
  | 't' => some '\t'
  | _ => none

def isHighSurrogate (n : Nat) : Bool := 0xD800 ≤ n && n ≤ 0xDBFF

def isLowSurrogate (n : Nat) : Bool := 0xDC00 ≤ n && n ≤ 0xDFFF

def ofSurrogates (high low : Nat) : Char :=
  Char.ofNat (0x10000 + (high - 0xD800) * 0x400 + (low - 0xDC00))

/-- Reads a string up to its closing quote. `read` holds the characters so far, reversed, and is
`none` after an unpaired surrogate. -/
def stringBody : List Char → (read : Option (List Char)) → Option (Option (List Char) × List Char)
  | [], _ => none
  | '"' :: s, read => some (read.map List.reverse, s)
  | '\\' :: 'u' :: a :: b :: c :: d :: s, read =>
    match hex? [a, b, c, d] with
    | none => none
    | some n =>
      if isLowSurrogate n then stringBody s none
      else if isHighSurrogate n then
        match s with
        | '\\' :: 'u' :: e :: f :: g :: h :: t =>
          match hex? [e, f, g, h] with
          | none => none
          | some m =>
            if isLowSurrogate m then stringBody t (read.map (ofSurrogates n m :: ·))
            else stringBody ('\\' :: 'u' :: e :: f :: g :: h :: t) none
        | s => stringBody s none
      else stringBody s (read.map (Char.ofNat n :: ·))
  | '\\' :: c :: s, read =>
    match escape? c with
    | some e => stringBody s (read.map (e :: ·))
    | none => none
  | c :: s, read => if c.toNat < 0x20 then none else stringBody s (read.map (c :: ·))
termination_by s => s.length

def digits (s : List Char) : List Char × List Char := s.span Char.isDigit

def fractionPart? : List Char → Option (List Char × List Char)
  | '.' :: s =>
    let (ds, rest) := digits s
    if ds.isEmpty then none else some (ds, rest)
  | s => some ([], s)

def exponentPart? : List Char → Option (Option Int × List Char)
  | c :: s =>
    if c == 'e' || c == 'E' then
      let (sign, s) : Int × List Char := match s with
        | '-' :: t => (-1, t)
        | '+' :: t => (1, t)
        | t => (1, t)
      let (ds, rest) := digits s
      if ds.isEmpty then none else some (some (sign * decimal ds), rest)
    else some (none, c :: s)
  | [] => some (none, [])

/-- The value of a number from its parts. Integers of 64 bits stay integers, except a negative zero. -/
def numberValue (negative : Bool) (whole fraction : List Char) (exponent : Option Int) : Value :=
  let n := decimal whole
  if fraction.isEmpty ∧ exponent = none ∧ negative = false ∧ n < UInt64.size then .integer n
  else if fraction.isEmpty ∧ exponent = none ∧ negative = true ∧ 0 < n ∧ n ≤ UInt64.size / 2 then
    .integer (-n)
  else if overflows whole fraction (exponent.getD 0) then .unreadable
  else .fraction

def number (s : List Char) : Option (Value × List Char) := do
  let (negative, s) := match s with
    | '-' :: t => (true, t)
    | t => (false, t)
  let (whole, s) := digits s
  if whole.isEmpty ∨ (whole.head? = some '0' ∧ 1 < whole.length) then none
  let (fraction, s) ← fractionPart? s
  let (exponent, s) ← exponentPart? s
  return (numberValue negative whole fraction exponent, s)

def stringValue : Option (List Char) → Value
  | some s => .text (String.ofList s)
  | none => .unreadable

mutual
/-- Reads a value after optional white space; the first argument bounds the steps. -/
def value : Nat → List Char → Option (Value × List Char)
  | 0, _ => none
  | n + 1, s =>
    match skipSpace s with
    | '"' :: t => (stringBody t (some [])).map fun (read, rest) => (stringValue read, rest)
    | '[' :: t =>
      match skipSpace t with
      | ']' :: rest => some (.list [], rest)
      | t => listItems n t []
    | '{' :: t =>
      match skipSpace t with
      | '}' :: rest => some (.table [], rest)
      | t => tableEntries n t [] true
    | 'n' :: 'u' :: 'l' :: 'l' :: rest => some (.null, rest)
    | 't' :: 'r' :: 'u' :: 'e' :: rest => some (.bool true, rest)
    | 'f' :: 'a' :: 'l' :: 's' :: 'e' :: rest => some (.bool false, rest)
    | t => number t

/-- Reads the items of a list up to its end; `done` holds those before, reversed. -/
def listItems : Nat → List Char → (done : List Value) → Option (Value × List Char)
  | 0, _, _ => none
  | n + 1, s, done =>
    match value n s with
    | none => none
    | some (v, s) =>
      match skipSpace s with
      | ',' :: t => listItems n t (v :: done)
      | ']' :: t => some (.list (v :: done).reverse, t)
      | _ => none

/-- Reads the entries of a table up to its end; `readable` tells whether all keys so far are. -/
def tableEntries : Nat → List Char → (done : List (String × Value)) → (readable : Bool) →
    Option (Value × List Char)
  | 0, _, _, _ => none
  | n + 1, s, done, readable =>
    match skipSpace s with
    | '"' :: t =>
      match stringBody t (some []) with
      | none => none
      | some (key, s) =>
        match skipSpace s with
        | ':' :: t =>
          match value n t with
          | none => none
          | some (v, s) =>
            let done := (String.ofList (key.getD []), v) :: done
            let readable := readable && key.isSome
            match skipSpace s with
            | ',' :: t => tableEntries n t done readable
            | '}' :: t => some (if readable then .table done.reverse else .unreadable, t)
            | _ => none
        | _ => none
    | _ => none
end

/-- Reads a document: one value and nothing else but white space. -/
def read? (s : List Char) : Option Value :=
  match value (2 * s.length + 2) s with
  | some (v, rest) => if (skipSpace rest).isEmpty then some v else none
  | none => none

def parse? (s : String) : Option Value := read? s.toList

def controlDigits (c : Char) : List Char :=
  let n := c.toNat
  [Nat.digitChar (n / 16), Nat.digitChar (n % 16)]

def escapeChar (c : Char) : List Char :=
  if c == '"' then ['\\', '"']
  else if c == '\\' then ['\\', '\\']
  else if c == '\x08' then ['\\', 'b']
  else if c == '\x0c' then ['\\', 'f']
  else if c == '\n' then ['\\', 'n']
  else if c == '\r' then ['\\', 'r']
  else if c == '\t' then ['\\', 't']
  else if c.toNat < 0x20 then ['\\', 'u', '0', '0'] ++ controlDigits c
  else [c]

def writeText (s : String) : List Char := '"' :: (s.toList.flatMap escapeChar ++ ['"'])

mutual
/-- A value without any white space. Kinds that a document cannot express are written as null. -/
def compact : Value → List Char
  | .bool true => "true".toList
  | .bool false => "false".toList
  | .integer n => (toString n).toList
  | .text s => writeText s
  | .list vs => '[' :: (compactItems vs ++ [']'])
  | .table es => '{' :: (compactEntries es ++ ['}'])
  | _ => "null".toList

def compactItems : List Value → List Char
  | [] => []
  | [v] => compact v
  | v :: vs => compact v ++ ',' :: compactItems vs

def compactEntries : List (String × Value) → List Char
  | [] => []
  | [(k, v)] => writeText k ++ ':' :: compact v
  | (k, v) :: es => writeText k ++ ':' :: (compact v ++ ',' :: compactEntries es)
end

def newLine (level : Nat) : List Char := '\n' :: List.replicate (2 * level) ' '

mutual
/-- A value with each item and entry on a line of its own. -/
def indented (level : Nat) : Value → List Char
  | .bool true => "true".toList
  | .bool false => "false".toList
  | .integer n => (toString n).toList
  | .text s => writeText s
  | .list [] => ['[', ']']
  | .list vs => '[' :: (indentedItems (level + 1) vs ++ newLine level ++ [']'])
  | .table [] => ['{', '}']
  | .table es => '{' :: (indentedEntries (level + 1) es ++ newLine level ++ ['}'])
  | _ => "null".toList

def indentedItems (level : Nat) : List Value → List Char
  | [] => []
  | [v] => newLine level ++ indented level v
  | v :: vs => newLine level ++ indented level v ++ ',' :: indentedItems level vs

def indentedEntries (level : Nat) : List (String × Value) → List Char
  | [] => []
  | [(k, v)] => newLine level ++ writeText k ++ ':' :: ' ' :: indented level v
  | (k, v) :: es =>
    newLine level ++ writeText k ++ ':' :: ' ' :: indented level v ++
      ',' :: indentedEntries level es
end

def write (v : Value) : String := String.ofList (compact v)

def writeIndented (v : Value) : String := String.ofList (indented 0 v)

end ExtensionLint.Data.Json
