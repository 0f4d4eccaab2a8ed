import ExtensionLint.Manifest.Check
import ExtensionLint.Text.Blank
import ExtensionLint.Text.Search
import ExtensionLint.Text.Utf8
import ExtensionLint.Text.WordCharacters

/-!
Telling manifests by the head of a file. Blanks, comments, instructions and declarations may stand
before the first element; its name decides. The scan does not ask whether the head is well-formed, and
an item that the head leaves open leaves the question open.
-/
namespace ExtensionLint.Discovery

open Text

/-- What the head of a file tells about its root element. -/
inductive HeadVerdict
  | manifest
  | other
  /-- The root lies beyond an item that the head does not close. -/
  | undecided
  deriving DecidableEq, Repr

def startsName (c : Char) : Bool := c.isAlpha || c == '_'

def continuesName (c : Char) : Bool := isWordCharacter c || c == '.' || c == '-'

/-- The names of the roots that can be reached from one place of a head. -/
structure Marks where
  /-- From here, before the root. -/
  root : Option (List Char) := none
  /-- From inside an instruction: past its first end after which a root is found. -/
  instruction : Option (List Char) := none
  /-- From inside a comment, in the same way. -/
  comment : Option (List Char) := none
  /-- From inside a declaration, past its first bracket. -/
  declaration : Option (List Char) := none

def nameAt? : List Char → Option (List Char)
  | c :: s => if startsName c then some (c :: s.takeWhile continuesName) else none
  | [] => none

/-- The marks of the text `c :: s`, given those of `s`, of its tail, and so on. -/
def marksAt (c : Char) (s : List Char) (later : List Marks) : Marks :=
  let past (n : Nat) : Marks := ((later.drop n).head?).getD {}
  let text := c :: s
  { root :=
      if isBlank c then (past 0).root
      else if startsWith text "<?".toList then (past 1).instruction
      else if startsWith text "<!--".toList then (past 3).comment.or (past 1).declaration
      else if startsWith text "<!".toList then (past 1).declaration
      else if c = '<' then nameAt? s
      else none
    instruction :=
      let here := if startsWith text "?>".toList then (past 1).root else none
      here.or (past 0).instruction
    comment :=
      let here := if startsWith text "-->".toList then (past 2).root else none
      here.or (past 0).comment
    declaration := if c = '>' then (past 0).root else (past 0).declaration }

def marks : List Char → List Marks
  | [] => [{}]
  | c :: s =>
    let later := marks s
    marksAt c s later :: later

/-- The name of the first element, if the items before it are closed. -/
def rootName? (head : List Char) : Option (List Char) := (marks head).head?.bind Marks.root

/-- Whether an item before the root may be left open. -/
def opensItem (head : List Char) : Bool :=
  let text := trimStart head
  startsWith text "<?".toList || startsWith text "<!".toList

/-- The head without a byte order mark. -/
def withoutMark (head : List Char) : List Char := (after? ['\uFEFF'] head).getD head

def scanHead (head : List Char) : HeadVerdict :=
  let head := withoutMark head
  match rootName? head with
  | some name => if Manifest.rootNames.contains (String.ofList name) then .manifest else .other
  | none => if opensItem head then .undecided else .other

def headSize : Nat := 4096

def hasManifestRoot (source : List Char) : Bool :=
  match Markup.document? source with
  | some root => Manifest.rootNames.contains root.name
  | none => false

/-- Whether a file is a manifest: its head tells, or else the whole file does. -/
def isManifest (bytes : List UInt8) : Bool :=
  match scanHead (Utf8.decodeLossy (bytes.take headSize)) with
  | .manifest => true
  | .other => false
  | .undecided => hasManifestRoot (Utf8.decodeLossy bytes)

end ExtensionLint.Discovery
