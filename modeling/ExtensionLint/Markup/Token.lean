import ExtensionLint.Markup.Character
import ExtensionLint.Text.Search

/-!
Tokens of XML: tags, runs of text and CDATA sections. Comments and processing instructions are
checked for their form and yield no token. What tokens mean is not judged here: names are not
resolved, references are not expanded.
-/
namespace ExtensionLint.Markup

open Text

/-- A name in two parts. The prefix is empty where none is written. -/
structure Name where
  space : List Char
  base : List Char
  deriving DecidableEq, Repr

inductive TagEnd
  | opening
  | empty
  /-- The text ends before the tag does, right after the name or an attribute. -/
  | missing
  deriving DecidableEq, Repr

inductive Token
  /-- A start tag, or an empty-element tag; attributes hold their values as written. -/
  | tag (name : Name) (attributes : List (Name × List Char)) (ending : TagEnd)
  | close (name : Name)
  /-- Characters up to the next angle bracket, references included. -/
  | text (written : List Char)
  | literal (written : List Char)
  deriving Repr

def Name.read? (s : List Char) : Option (Name × List Char) :=
  let (run, rest) := s.span isNameChar
  let name : Option Name := match run.span (· != ':') with
    | (base, []) => some ⟨[], base⟩
    | (space, _ :: base) => if base.contains ':' then none else some ⟨space, base⟩
  match name with
  | none => none
  | some name =>
    if name.space.head?.all isNameStart && name.base.head?.any isNameStart then some (name, rest)
    else none

/-- Reads a name that is not divided. -/
def plainName? (s : List Char) : Option (List Char × List Char) :=
  match s.span isNameChar with
  | ([], _) => none
  | (c :: run, rest) => if isNameStart c then some (c :: run, rest) else none

/-- Reads up to the closing mark; `none` if it does not follow. -/
def until? (mark : List Char) : List Char → (done : List Char) → Option (List Char × List Char)
  | [], _ => none
  | c :: s, done =>
    match after? mark (c :: s) with
    | some rest => some (done.reverse, rest)
    | none => until? mark s (c :: done)

/-- Reads up to the closing mark; `none` also if a character before it is not allowed. -/
def allowedUntil? (mark : List Char) (s : List Char) : Option (List Char × List Char) :=
  match until? mark s [] with
  | some (body, rest) => if body.all isAllowed then some (body, rest) else none
  | none => none

/-- The rest after a comment whose opener has been read. Its body holds no two hyphens in a row and
does not end in one. -/
def afterComment? (s : List Char) : Option (List Char) :=
  match allowedUntil? "-->".toList s with
  | some (body, rest) =>
    if occurs "--".toList body || body.getLast? == some '-' then none else some rest
  | none => none

/-- The rest after a processing instruction, from its opener on. An XML declaration is none. -/
def afterInstruction? (s : List Char) : Option (List Char) := do
  if startsWith s "<?xml ".toList then none
  let s ← after? "<?".toList s
  let (_, s) ← plainName? s
  let (_, rest) ← allowedUntil? "?>".toList (skipSpace s)
  return rest

/-- Reads a value between quotes, which holds no angle bracket. -/
def quotedValue? : List Char → Option (List Char × List Char)
  | q :: s =>
    if q == '"' || q == '\'' then
      match s.span fun c => c != q && c != '<' with
      | (value, c :: rest) => if c == q && value.all isAllowed then some (value, rest) else none
      | _ => none
    else none
  | [] => none

def attribute? (s : List Char) : Option ((Name × List Char) × List Char) := do
  let (name, s) ← Name.read? s
  let s ← after? ['='] (skipSpace s)
  let (value, rest) ← quotedValue? (skipSpace s)
  return ((name, value), rest)

/-- Reads the attributes of a tag and its end; the first argument bounds their number. Each attribute
follows white space. -/
def attributes? : Nat → List Char → (done : List (Name × List Char)) →
    Option (List (Name × List Char) × TagEnd × List Char)
  | 0, _, _ => none
  | _, [], done => some (done.reverse, .missing, [])
  | n + 1, s, done =>
    match skipSpace s with
    | '/' :: '>' :: rest => some (done.reverse, .empty, rest)
    | '>' :: rest => some (done.reverse, .opening, rest)
    | t =>
      if s.head?.all fun c => !isSpace c then none
      else match attribute? t with
        | some (a, rest) => attributes? n rest (a :: done)
        | none => none

/-- Reads a tag after its opening angle bracket; also tells whether an element is left open. -/
def tag? (s : List Char) : Option (Token × Bool × List Char) := do
  let (name, s) ← Name.read? s
  let (attributes, ending, rest) ← attributes? (s.length + 1) s []
  return (.tag name attributes ending, ending = .opening, rest)

def closeTag? (s : List Char) : Option (Token × List Char) := do
  let (name, s) ← Name.read? s
  let rest ← after? ['>'] (skipSpace s)
  return (.close name, rest)

/-- Reads content until the closing tag that answers no tag of this content, or until the text ends.
`depth` counts the elements left open; the first argument bounds the steps. -/
def contentFrom : Nat → (depth : Nat) → List Char → (done : List Token) →
    Option (List Token × List Char)
  | 0, _, _, _ => none
  | _, _, [], done => some (done.reverse, [])
  | n + 1, depth, '<' :: s, done =>
    match s with
    | '!' :: '-' :: '-' :: t =>
      match afterComment? t with
      | some rest => contentFrom n depth rest done
      | none => none
    | '!' :: t =>
      match after? "[CDATA[".toList t with
      | some t =>
        match allowedUntil? "]]>".toList t with
        | some (body, rest) => contentFrom n depth rest (.literal body :: done)
        | none => none
      | none => none
    | '?' :: _ =>
      match afterInstruction? ('<' :: s) with
      | some rest => contentFrom n depth rest done
      | none => none
    | '/' :: t =>
      match closeTag? t with
      | some (token, rest) =>
        match depth with
        | 0 => some ((token :: done).reverse, rest)
        | depth + 1 => contentFrom n depth rest (token :: done)
      | none => none
    | _ =>
      match tag? s with
      | some (token, opens, rest) =>
        contentFrom n (if opens then depth + 1 else depth) rest (token :: done)
      | none => none
  | n + 1, depth, c :: s, done =>
    let (run, rest) := (c :: s).span (· != '<')
    if run.all isAllowed && !occurs "]]>".toList run then
      contentFrom n depth rest (.text run :: done)
    else none

def content? (s : List Char) : Option (List Token × List Char) :=
  contentFrom (s.length + 1) 0 s []

/-- The tokens of an element, from its opening angle bracket on, and what follows it. An element that
the text does not close has the tokens up to its end. -/
def element? : List Char → Option (List Token × List Char)
  | '<' :: s =>
    match tag? s with
    | some (token, true, rest) => (content? rest).map fun (tokens, rest) => (token :: tokens, rest)
    | some (token, false, rest) => some ([token], rest)
    | none => none
  | _ => none

end ExtensionLint.Markup
