/-!
Paths as texts: components, file names, extensions and the order in which files are listed.
-/
namespace ExtensionLint.Path

inductive Component
  /-- The slash at the start of an absolute path. -/
  | root
  /-- A dot at the start of a relative path. -/
  | current
  | parent
  | name (text : String)
  deriving DecidableEq, Repr

/-- Cuts a path at its slashes; `piece` and `done` hold, reversed, what has been read. -/
def cut : List Char → (piece : List Char) → (done : List String) → List String
  | [], piece, done => (String.ofList piece.reverse :: done).reverse
  | c :: s, piece, done =>
    if c == '/' then cut s [] (String.ofList piece.reverse :: done) else cut s (c :: piece) done

def pieces (path : String) : List String := cut path.toList [] []

/-- The component that a text between slashes stands for; empty texts and dots stand for none. -/
def component? (piece : String) : Option Component :=
  if piece = "" ∨ piece = "." then none
  else if piece = ".." then some .parent
  else some (.name piece)

/-- The components of a path. A dot counts only where a relative path starts with it. -/
def components (path : String) : List Component :=
  let ps := pieces path
  let rest := ps.filterMap component?
  match ps with
  | "" :: _ :: _ => .root :: rest
  | "." :: _ => .current :: rest
  | _ => rest

def fileName? (path : String) : Option String :=
  match (components path).getLast? with
  | some (.name text) => some text
  | _ => none

/-- The part of a file name after its last dot, unless that dot starts the name. -/
def nameExtension? (name : String) : Option String :=
  let reversed := name.toList.reverse
  match reversed.dropWhile (· != '.') with
  | _ :: _ :: _ => some (String.ofList (reversed.takeWhile (· != '.')).reverse)
  | _ => none

def extension? (path : String) : Option String := (fileName? path).bind nameExtension?

def join (dir name : String) : String :=
  if name.startsWith "/" then name
  else if dir = "" ∨ dir.endsWith "/" then dir ++ name
  else dir ++ "/" ++ name

def Component.rank : Component → Nat
  | .root => 0
  | .current => 1
  | .parent => 2
  | .name _ => 3

/-- Components by kind, names by code points. -/
def Component.compare : Component → Component → Ordering
  | .name a, .name b => Ord.compare a b
  | a, b => Ord.compare a.rank b.rank

/-- Sequences of components, the shorter of two with a common start first. -/
def compareComponents : List Component → List Component → Ordering
  | [], [] => .eq
  | [], _ :: _ => .lt
  | _ :: _, [] => .gt
  | a :: as, b :: bs => (a.compare b).then (compareComponents as bs)

/-- Whether a path comes no later than another one in listings. -/
def listedBefore (a b : String) : Bool :=
  compareComponents (components a) (components b) != .gt

def sort (paths : List String) : List String := paths.mergeSort listedBefore

end ExtensionLint.Path
