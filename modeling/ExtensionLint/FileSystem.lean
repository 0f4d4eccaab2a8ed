import ExtensionLint.Data.Entries
import ExtensionLint.Fault
import ExtensionLint.Path
import ExtensionLint.Text.Utf8

/-!
File systems as values: a tree of directories with files and symbolic links, and a directory that
relative paths start from. Looking a path up follows links, up to a limit.
-/
namespace ExtensionLint

/-- What a name in a directory stands for. -/
inductive FileNode
  | file (bytes : List UInt8)
  | directory (entries : List (String × FileNode))
  | link (target : String)

/-- A tree of files with a working directory, given by the names that lead to it. -/
structure FileSystem where
  root : FileNode
  working : List String := []

namespace FileNode

def child? : FileNode → String → Option FileNode
  | directory entries, name => entries.lookup name
  | _, _ => none

def isDirectory : FileNode → Bool
  | directory _ => true
  | _ => false

def isLink : FileNode → Bool
  | link _ => true
  | _ => false

/-- The tree with a node put at the end of a path of names; directories on the way are made, and
whatever is no directory gives way. -/
def put (node : FileNode) : (names : List String) → FileNode → FileNode
  | [], _ => node
  | name :: names, here =>
    let entries := match here with
      | directory entries => entries
      | _ => []
    let inner := (entries.lookup name).getD (directory [])
    directory (Data.put name (put node names inner) entries)

def erase : (names : List String) → FileNode → FileNode
  | [], here => here
  | [name], directory entries => directory (entries.filter (·.1 ≠ name))
  | name :: names, directory entries =>
    directory (entries.map fun (n, inner) => (n, if n = name then erase names inner else inner))
  | _, here => here

end FileNode

namespace FileSystem

/-- How many links a path may lead through. -/
def mostLinks : Nat := 40

def longestName : Nat := 255

def longestPath : Nat := 4095

/-- The node that names lead to, without following links. -/
def at? (root : FileNode) : (names : List String) → Option FileNode
  | [] => some root
  | name :: names => (root.child? name).bind (at? · names)

/-- Follows the pieces of a path from a place, which is given by the names that lead to it, in
reverse. A link at the very end is followed unless `keepLast` is set. -/
def walk (root : FileNode) (keepLast : Bool) (links : Nat) (place : List String) :
    (pieces : List String) → Except AccessFault (List String)
  | [] => .ok place
  | piece :: rest =>
    match at? root place.reverse with
    | some (.directory entries) =>
      if piece = "" ∨ piece = "." then walk root keepLast links place rest
      else if piece = ".." then walk root keepLast links place.tail rest
      else if longestName < piece.utf8ByteSize then .error .nameTooLong
      else match entries.lookup piece with
        | none => .error .missing
        | some (.link target) =>
          if keepLast ∧ rest = [] then .ok (piece :: place)
          else match links with
            | 0 => .error .tooManyLinks
            | links + 1 =>
              let start := if target.startsWith "/" then [] else place
              walk root keepLast links start (Path.pieces target ++ rest)
        | some _ => walk root keepLast links (piece :: place) rest
    | _ => .error .notADirectory
termination_by pieces => (links, pieces.length)

/-- The names that lead to the place of a path. -/
def locate (fs : FileSystem) (keepLast : Bool) (path : String) : Except AccessFault (List String) :=
  if path.contains '\x00' then .error .zeroCharacter
  else if path = "" then .error .missing
  else if longestPath < path.utf8ByteSize then .error .nameTooLong
  else
    let start := if path.startsWith "/" then [] else fs.working.reverse
    (walk fs.root keepLast mostLinks start (Path.pieces path)).map List.reverse

/-- The node at a path, links followed. -/
def node (fs : FileSystem) (path : String) : Except AccessFault FileNode := do
  let names ← fs.locate false path
  match at? fs.root names with
  | some n => .ok n
  | none => .error .missing

/-- The node at a path, a link at its end not followed. -/
def ownNode (fs : FileSystem) (path : String) : Except AccessFault FileNode := do
  let names ← fs.locate true path
  match at? fs.root names with
  | some n => .ok n
  | none => .error .missing

def read (fs : FileSystem) (path : String) : Except AccessFault (List UInt8) := do
  match ← fs.node path with
  | .file bytes => .ok bytes
  | .directory _ => .error .isADirectory
  | .link _ => .error .missing

def readText (fs : FileSystem) (path : String) : Except AccessFault (List Char) := do
  match Text.Utf8.decode? (← fs.read path) with
  | some text => .ok text
  | none => .error .notText

def exists? (fs : FileSystem) (path : String) : Bool := (fs.node path).isOk

def isDirectory (fs : FileSystem) (path : String) : Bool :=
  match fs.node path with
  | .ok n => n.isDirectory
  | .error _ => false

def isFile (fs : FileSystem) (path : String) : Bool :=
  match fs.node path with
  | .ok (.file _) => true
  | _ => false

/-- The names below the root that the components of a path spell, links not followed. -/
def names (fs : FileSystem) (path : String) : List String :=
  let start := if path.startsWith "/" then [] else fs.working
  (Path.components path).foldl (fun ns c =>
    match c with
    | .name text => ns ++ [text]
    | .parent => ns.dropLast
    | _ => ns) start

def put (fs : FileSystem) (path : String) (node : FileNode) : FileSystem :=
  { fs with root := FileNode.put node (fs.names path) fs.root }

def remove? (fs : FileSystem) (path : String) : Option FileSystem :=
  match fs.locate true path with
  | .error _ => none
  | .ok names =>
    match at? fs.root names with
    | some (.file _) => some { fs with root := fs.root.erase names }
    | some (.link _) => some { fs with root := fs.root.erase names }
    | _ => none

end FileSystem
end ExtensionLint
