import ExtensionLint.Script.Scan
import ExtensionLint.Text.Search

/-!
Scripts that only declare: a namespace, imports, then classes, interfaces, traits and enums. Such a
script runs nothing when it is requested by itself. The grammar is read off condensed text, in which
a single space stands for each run of blanks.
-/
namespace ExtensionLint.Script

open Text

def isNameChar (c : Char) : Bool := c.isAlphanum || c == '_'

/-- Characters of names with a namespace. -/
def isPathChar (c : Char) : Bool := isNameChar c || c == '\\'

/-- The rest after one or more characters of a class. -/
def afterSome? (member : Char → Bool) (s : List Char) : Option (List Char) :=
  match s with
  | c :: t => if member c then some (t.dropWhile member) else none
  | [] => none

def afterSpace (s : List Char) : List Char := (after? [' '] s).getD s

/-- The rest after the mark with an optional space before it. -/
def afterMark? (mark : Char) (s : List Char) : Option (List Char) := after? [mark] (afterSpace s)

/-- The rest after the semicolon that ends a statement, with a space on either side. -/
def afterSemicolon? (s : List Char) : Option (List Char) := (afterMark? ';' s).map afterSpace

def afterOptional (part : List Char → Option (List Char)) (s : List Char) : List Char :=
  (part s).getD s

def afterNamespace? (s : List Char) : Option (List Char) := do
  let s ← after? "namespace ".toList s
  let s ← afterSome? isPathChar s
  afterSemicolon? s

/-- The rest after a name, an optional alias and a semicolon. -/
def afterImported? (s : List Char) : Option (List Char) := do
  let s ← afterSome? isPathChar s
  let s := afterOptional (fun s => (after? " as ".toList s).bind (afterSome? isNameChar)) s
  afterSemicolon? s

/-- The rest after an import. The words for functions and constants are names themselves where no
name follows them. -/
def afterImport? (s : List Char) : Option (List Char) := do
  let s ← after? "use ".toList s
  let kind := (after? "function ".toList s).or (after? "const ".toList s)
  (kind.bind afterImported?).or (afterImported? s)

/-- The rest after all imports at the start of a text; the first argument bounds their number. -/
def afterImports : Nat → List Char → List Char
  | 0, s => s
  | n + 1, s =>
    match afterImport? s with
    | some rest => afterImports n rest
    | none => s

def modifiers : List (List Char) := ["abstract ".toList, "final ".toList, "readonly ".toList]

def declarationKinds : List (List Char) :=
  ["class ".toList, "interface ".toList, "trait ".toList, "enum ".toList]

/-- The rest after the first of the words that stands at the start. -/
def afterOneOf? (ws : List (List Char)) (s : List Char) : Option (List Char) :=
  ws.findSome? (after? · s)

def afterModifiers : Nat → List Char → List Char
  | 0, s => s
  | n + 1, s =>
    match afterOneOf? modifiers s with
    | some rest => afterModifiers n rest
    | none => s

def afterFurtherName? (s : List Char) : Option (List Char) := do
  let s ← afterMark? ',' s
  afterSome? isPathChar (afterSpace s)

def afterFurtherNames : Nat → List Char → List Char
  | 0, s => s
  | n + 1, s =>
    match afterFurtherName? s with
    | some rest => afterFurtherNames n rest
    | none => s

def afterNameList? (word : List Char) (s : List Char) : Option (List Char) := do
  let s ← after? word s
  let s ← afterSome? isPathChar s
  return afterFurtherNames s.length s

def afterBackingType? (s : List Char) : Option (List Char) := do
  let s ← afterMark? ':' s
  afterSome? isPathChar (afterSpace s)

/-- The rest, from its opening brace on, after the head of a declaration. -/
def afterHead? (s : List Char) : Option (List Char) := do
  let s ← afterOneOf? declarationKinds (afterModifiers s.length s)
  let s ← afterSome? isNameChar s
  let s := afterOptional afterBackingType? s
  let s := afterOptional (afterNameList? " extends ".toList) s
  let s := afterOptional (afterNameList? " implements ".toList) s
  let s := afterSpace s
  if s.head? = some '{' then some s else none

/-- Offset of the brace that closes the depth reached so far, counted from `offset`. Between quotes
braces do not count, and a backslash there hides the character after it. -/
def closingBraceFrom : (quote : Option Char) → (depth : Nat) → List Char → (offset : Nat) → Option Nat
  | _, _, [], _ => none
  | some _, _, ['\\'], _ => none
  | some q, depth, '\\' :: _ :: s, offset => closingBraceFrom (some q) depth s (offset + 2)
  | some q, depth, c :: s, offset =>
    closingBraceFrom (if c = q then none else some q) depth s (offset + 1)
  | none, depth, c :: s, offset =>
    if c = '\'' ∨ c = '"' then closingBraceFrom (some c) depth s (offset + 1)
    else if c = '{' then closingBraceFrom none (depth + 1) s (offset + 1)
    else if c = '}' then
      match depth with
      | 0 => none
      | 1 => some offset
      | depth + 2 => closingBraceFrom none (depth + 1) s (offset + 1)
    else closingBraceFrom none depth s (offset + 1)

def closingBrace? (s : List Char) : Option Nat := closingBraceFrom none 0 s 0

def afterDeclaration? (s : List Char) : Option (List Char) := do
  let body ← afterHead? s
  let close ← closingBrace? body
  return body.drop (close + 1)

/-- Whether a text consists of declarations and an optional close tag, after `count` declarations
before it and with at least one in all; the first argument bounds the steps. -/
def declaresOnly : Nat → (count : Nat) → List Char → Bool
  | 0, _, _ => false
  | n + 1, count, s =>
    let s := trimStart s
    if s.isEmpty || s == "?>".toList then 0 < count
    else match afterDeclaration? s with
      | some rest => declaresOnly n (count + 1) rest
      | none => false

/-- Whether a condensed text is one block of code that only declares. -/
def isDeclarative (condensed : List Char) : Bool :=
  match after? "<?php".toList condensed with
  | none => false
  | some rest =>
    if occurs "<?".toList rest then false
    else
      let s := afterOptional afterNamespace? (trimStart rest)
      let s := afterImports s.length s
      declaresOnly (s.length + 1) 0 s

def isDeclarationOnly (source : List Char) : Except ScriptFault Bool :=
  (condense source).map isDeclarative

end ExtensionLint.Script
