import ExtensionLint.Data.Json
import ExtensionLint.Text.Blank
import ExtensionLint.Time

/-! Values of TOML that hold no others: strings in four notations, numbers, truth values and dates. -/
namespace ExtensionLint.Data.Toml

open Text

def isGap (c : Char) : Bool := c == ' ' || c == '\t'

def skipGap (s : List Char) : List Char := s.dropWhile isGap

/-- The rest after a line end: LF or CRLF. -/
def afterNewline? : List Char → Option (List Char)
  | '\n' :: s => some s
  | '\r' :: '\n' :: s => some s
  | _ => none

/-- Characters that may stand in comments and strings as they are. -/
def isPlain (c : Char) : Bool := c == '\t' || (0x20 ≤ c.toNat && c.toNat != 0x7F)

def codePoint? (digits : List Char) : Option Char := do
  let n ← Json.hex? digits
  if n.isValidChar then some (Char.ofNat n) else none

def coded? (width : Nat) (s : List Char) : Option (Char × List Char) :=
  if width ≤ s.length then (codePoint? (s.take width)).map fun c => (c, s.drop width) else none

def escaped? : List Char → Option (Char × List Char)
  | 'b' :: s => some ('\x08', s)
  | 't' :: s => some ('\t', s)
  | 'n' :: s => some ('\n', s)
  | 'f' :: s => some ('\x0c', s)
  | 'r' :: s => some ('\r', s)
  | 'e' :: s => some ('\x1b', s)
  | '"' :: s => some ('"', s)
  | '\\' :: s => some ('\\', s)
  | 'x' :: s => coded? 2 s
  | 'u' :: s => coded? 4 s
  | 'U' :: s => coded? 8 s
  | _ => none

/-- Reads a string in double quotes after its opener; the first argument bounds the steps. -/
def basicFrom : Nat → List Char → (done : List Char) → Option (List Char × List Char)
  | 0, _, _ => none
  | _, [], _ => none
  | n + 1, c :: s, done =>
    if c = '"' then some (done.reverse, s)
    else if c = '\\' then
      match escaped? s with
      | some (e, rest) => basicFrom n rest (e :: done)
      | none => none
    else if isPlain c then basicFrom n s (c :: done)
    else none

def literal? (s : List Char) : Option (List Char × List Char) :=
  match s.span fun c => c != '\'' && isPlain c with
  | (body, '\'' :: rest) => some (body, rest)
  | _ => none

def skipBlankLines : Nat → List Char → List Char
  | 0, s => s
  | n + 1, s =>
    match afterNewline? (skipGap s) with
    | some rest => skipBlankLines n rest
    | none => skipGap s

/-- Reads the end of a string of several lines: three quotes, before which two more may stand. -/
def closing? (quote : Char) (s : List Char) : Option (List Char × List Char) :=
  let quotes := s.takeWhile (· == quote)
  if quotes.length < 3 then none
  else
    let size := min quotes.length 5
    some (List.replicate (size - 3) quote, s.drop size)

/-- Reads a string of several lines after its opener; escapes count between double quotes only. The
first argument bounds the steps. -/
def linesFrom (quote : Char) : Nat → List Char → (done : List Char) →
    Option (List Char × List Char)
  | 0, _, _ => none
  | _, [], _ => none
  | n + 1, c :: s, done =>
    match closing? quote (c :: s), afterNewline? (c :: s) with
    | some (quotes, rest), _ => some (done.reverse ++ quotes, rest)
    | none, some rest =>
      linesFrom quote n rest (if c = '\r' then '\n' :: c :: done else c :: done)
    | none, none =>
      if c = '\\' ∧ quote = '"' then
        match afterNewline? (skipGap s), escaped? s with
        | some rest, _ => linesFrom quote n (skipBlankLines n rest) done
        | none, some (e, rest) => linesFrom quote n rest (e :: done)
        | none, none => none
      else if isPlain c then linesFrom quote n s (c :: done)
      else none

/-- Reads a string of several lines; a line end right after the opener does not count. -/
def lines? (quote : Char) (s : List Char) : Option (List Char × List Char) :=
  let body := (afterNewline? s).getD s
  linesFrom quote (body.length + 1) body []

def lineString? : List Char → Option (List Char × List Char)
  | '"' :: s => basicFrom (s.length + 1) s []
  | '\'' :: s => literal? s
  | _ => none

def string? : List Char → Option (List Char × List Char)
  | '"' :: '"' :: '"' :: s => lines? '"' s
  | '\'' :: '\'' :: '\'' :: s => lines? '\'' s
  | s => lineString? s

/-- The digits of a number without the underscores between them; `none` if an underscore stands
elsewhere or there is no digit. -/
def grouped? (isDigit : Char → Bool) (s : List Char) : Option (List Char) :=
  let groups := parts (· == '_') s
  if groups.all fun g => !g.isEmpty && g.all isDigit then some groups.flatten else none

/-- Decimal digits, which start with a zero only if they are that zero. -/
def whole? (s : List Char) : Option (List Char) := do
  let ds ← grouped? Char.isDigit s
  if ds.head? = some '0' ∧ 1 < ds.length then none else some ds

/-- Whether a minus stands before a number, and the number without its sign. -/
def signed : List Char → Bool × List Char
  | '-' :: s => (true, s)
  | '+' :: s => (false, s)
  | s => (false, s)

def inBase? (base : Nat) (s : List Char) : Option Int := do
  let isDigit (c : Char) : Bool := match Json.hexDigit? c with
    | some d => d < base
    | none => false
  let ds ← grouped? isDigit s
  return ds.foldl (fun n c => n * base + (Json.hexDigit? c).getD 0) 0

/-- Reads an integer; only decimal ones have a sign. -/
def integer? : List Char → Option Int
  | '0' :: 'x' :: s => inBase? 16 s
  | '0' :: 'o' :: s => inBase? 8 s
  | '0' :: 'b' :: s => inBase? 2 s
  | s => do
    let (negative, s) := signed s
    let n : Int := decimal (← whole? s)
    return if negative then -n else n

/-- The value for an integer; those of more than 128 bits are refused. -/
def integerValue? (n : Int) : Option Value :=
  if -(UInt64.size / 2) ≤ n ∧ n < UInt64.size then some (.integer n)
  else if -(Nat.pow 2 127) ≤ n ∧ n < Nat.pow 2 128 then some .fraction
  else none

def isGroupedDigit (c : Char) : Bool := c.isDigit || c == '_'

def places? : List Char → Option (List Char × List Char)
  | '.' :: s =>
    let (ds, rest) := s.span isGroupedDigit
    (grouped? Char.isDigit ds).map fun ds => (ds, rest)
  | s => some ([], s)

def exponent? : List Char → Option (Option Int)
  | [] => some none
  | c :: s =>
    let (negative, ds) := signed s
    if c = 'e' ∨ c = 'E' then
      (grouped? Char.isDigit ds).map fun ds =>
        let n : Int := decimal ds
        some (if negative then -n else n)
    else none

/-- Whether a text is a number with a fraction or an exponent, infinite, or no number at all. Numbers
that a double cannot hold are refused. -/
def isFraction (s : List Char) : Bool :=
  let s := (signed s).2
  if s = ['i', 'n', 'f'] ∨ s = ['n', 'a', 'n'] then true
  else
    let (whole, rest) := s.span isGroupedDigit
    match whole? whole, places? rest with
    | some whole, some (places, rest) =>
      match exponent? rest with
      | none => false
      | some exponent =>
        let mantissa := decimal (whole ++ places)
        (!places.isEmpty || exponent.isSome) &&
          !exceedsDouble mantissa (exponent.getD 0 - places.length)
    | _, _ => false

def timeOfDay? (s : List Char) : Option (List Char) := do
  let (hour, s) ← Timestamp.number? 2 s
  let (minute, s) ← Timestamp.number? 2 (← Timestamp.mark? [':'] s)
  if 24 ≤ hour ∨ 60 ≤ minute then none
  match s with
  | ':' :: s =>
    let (second, s) ← Timestamp.number? 2 s
    let (_, s) ← Timestamp.fraction? s
    if 60 < second then none else return s
  | s => return s

/-- Whether a text is a date, a time, or both with or without a distance from universal time. -/
def isMoment (s : List Char) : Bool :=
  match Timestamp.date? s with
  | none => timeOfDay? s = some []
  | some (_, []) => true
  | some (_, rest) =>
    match (Timestamp.mark? ['T', 't', ' '] rest).bind timeOfDay? with
    | none => false
    | some [] => true
    | some rest => (Timestamp.offset? rest).any fun (_, rest) => rest.isEmpty

def isWordChar (c : Char) : Bool :=
  c.isAlphanum || c == '+' || c == '-' || c == '_' || c == '.' || c == ':'

/-- A word, together with the next one where the two are a date and a time with one blank between. -/
def word (s : List Char) : List Char × List Char :=
  let (first, rest) := s.span isWordChar
  match rest with
  | ' ' :: t =>
    let (second, rest') := t.span isWordChar
    let both := first ++ ' ' :: second
    if isMoment both then (both, rest') else (first, rest)
  | _ => (first, rest)

def wordValue? (w : List Char) : Option Value :=
  if w = "true".toList then some (.bool true)
  else if w = "false".toList then some (.bool false)
  else match integer? w with
    | some n => integerValue? n
    | none => if isFraction w then some .fraction else if isMoment w then some .moment else none

def scalar? (s : List Char) : Option (Value × List Char) :=
  match string? s with
  | some (text, rest) => some (.text (String.ofList text), rest)
  | none =>
    let (w, rest) := word s
    (wordValue? w).map fun v => (v, rest)

end ExtensionLint.Data.Toml
