import ExtensionLint.Markup.Token

/-!
What stands before the root element: the XML declaration, comments, processing instructions and the
document type with the entities it declares.
-/
namespace ExtensionLint.Markup

open Text

/-- Entities by name, as they are declared; of several with one name the first counts. -/
abbrev Entities := List (List Char × List Char)

/-- The rest after comments, processing instructions and white space; the first argument bounds the
steps. -/
def afterMiscellany? : Nat → List Char → Option (List Char)
  | 0, _ => none
  | n + 1, s =>
    let s := skipSpace s
    match after? "<!--".toList s with
    | some t => (afterComment? t).bind (afterMiscellany? n)
    | none =>
      if startsWith s "<?".toList then (afterInstruction? s).bind (afterMiscellany? n) else some s

def miscellany? (s : List Char) : Option (List Char) := afterMiscellany? (s.length + 1) s

/-- The rest after white space, of which there is some. -/
def afterSpaces? : List Char → Option (List Char)
  | c :: s => if isSpace c then some (skipSpace s) else none
  | [] => none

/-- The rest after white space, of which there is some unless the declaration ends. -/
def afterGap? (s : List Char) : Option (List Char) :=
  if startsWith s "?>".toList then some s else afterSpaces? s

/-- The rest after an attribute whose name starts with the word. -/
def afterDeclared? (word s : List Char) : Option (List Char) :=
  if startsWith s word then (attribute? s).map (·.2) else none

/-- The rest after an XML declaration, from the space behind its opener on. -/
def afterDeclaration? (s : List Char) : Option (List Char) := do
  let s ← afterDeclared? "version".toList (skipSpace s)
  let s ← afterGap? s
  let s ← if startsWith s "encoding".toList then (afterDeclared? "encoding".toList s).bind afterGap?
    else some s
  let s ← if startsWith s "standalone".toList then afterDeclared? "standalone".toList s else some s
  after? "?>".toList (skipSpace s)

def quotedText? : List Char → Option (List Char × List Char)
  | q :: s => if q == '"' || q == '\'' then until? [q] s [] else none
  | [] => none

def afterQuoted? (s : List Char) : Option (List Char) := do
  let s ← afterSpaces? s
  let (_, rest) ← quotedText? s
  return rest

/-- The rest after an external identifier; `none` inside if none is there, or one is malformed. -/
def afterExternal? (s : List Char) : Option (Option (List Char)) :=
  match after? "SYSTEM".toList s, after? "PUBLIC".toList s with
  | some t, _ => some (afterQuoted? t)
  | none, some t => some ((afterQuoted? t).bind afterQuoted?)
  | none, none => none

def afterNotation? (s : List Char) : Option (List Char) :=
  match after? "NDATA".toList (skipSpace s) with
  | none => some (skipSpace s)
  | some t => do
    let t ← afterSpaces? t
    let (_, rest) ← plainName? t
    return rest

/-- Reads what an entity stands for: a text, or something outside the document. -/
def entityValue? (general : Bool) (s : List Char) : Option (Option (List Char) × List Char) :=
  match quotedText? s with
  | some (value, rest) => some (some value, rest)
  | none => do
    let t ← (afterExternal? s).join
    let rest ← if general then afterNotation? t else some t
    return (none, rest)

def entity? (s : List Char) : Option (Entities × List Char) := do
  let s ← afterSpaces? s
  let (general, s) ← match s with
    | '%' :: t => (afterSpaces? t).map fun t => (false, t)
    | t => some (true, t)
  let (name, s) ← plainName? s
  let s ← afterSpaces? s
  let (value, s) ← entityValue? general s
  let rest ← after? ['>'] (skipSpace s)
  return ((value.map fun v => (name, v)).toList, rest)

/-- Declarations that say nothing about entities. -/
def otherDeclarations : List (List Char) :=
  ["<!ELEMENT".toList, "<!ATTLIST".toList, "<!NOTATION".toList]

/-- Reads the declarations between brackets up to the end of the document type; the first argument
bounds the steps. -/
def subset? : Nat → List Char → (done : Entities) → Option (Entities × List Char)
  | 0, _, _ => none
  | n + 1, s, done =>
    let s := skipSpace s
    match after? "<!ENTITY".toList s, after? "<!--".toList s with
    | some t, _ =>
      match entity? t with
      | some (es, rest) => subset? n rest (done ++ es)
      | none => none
    | none, some t => (afterComment? t).bind fun rest => subset? n rest done
    | none, none =>
      if startsWith s "<?".toList then (afterInstruction? s).bind fun rest => subset? n rest done
      else match s with
        | ']' :: t => (after? ['>'] (skipSpace t)).map fun rest => (done, rest)
        | _ =>
          if otherDeclarations.any (startsWith s ·) then
            match until? ['>'] s [] with
            | some (_, rest) => subset? n rest done
            | none => none
          else none

def documentType? (s : List Char) : Option (Entities × List Char) := do
  let s ← afterSpaces? s
  let (_, s) ← plainName? s
  let s := skipSpace s
  let s ← (afterExternal? s).getD (some s)
  match skipSpace s with
  | '>' :: rest => some ([], rest)
  | '[' :: t => subset? (t.length + 1) t []
  | _ => none

def prolog? (s : List Char) : Option (Entities × List Char) := do
  let s := (after? ['\uFEFF'] s).getD s
  let s ← match after? "<?xml ".toList s with
    | some t => afterDeclaration? t
    | none => some s
  let s ← miscellany? s
  match after? "<!DOCTYPE".toList s with
  | some t => do
    let (entities, t) ← documentType? t
    let rest ← miscellany? t
    return (entities, rest)
  | none => return ([], s)

end ExtensionLint.Markup
