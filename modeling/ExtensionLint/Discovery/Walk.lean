import ExtensionLint.Discovery.Filter
import ExtensionLint.Discovery.Head
import ExtensionLint.FileSystem

/-!
Finding the files of a tree. What lies below the root is walked in any order and listed by path; a
part that cannot be read is passed over, while the root has to be there.
-/
namespace ExtensionLint

mutual
def FileNode.size : FileNode → Nat
  | .directory entries => FileNode.sizeOfEntries entries + 1
  | _ => 1

def FileNode.sizeOfEntries : List (String × FileNode) → Nat
  | [] => 0
  | (_, n) :: es => n.size + FileNode.sizeOfEntries es
end

namespace Discovery

/-- Whether an entry is left out because it is a link. -/
def leavesOut (fs : FileSystem) (f : Filter) (path : String) : Bool :=
  !f.followLinks && match fs.ownNode path with
    | .ok n => n.isLink
    | .error _ => false

def entryPaths (fs : FileSystem) (f : Filter) (path : String)
    (entries : List (String × FileNode)) : List String :=
  (entries.map fun (name, _) => Path.join path name).filter fun p => !leavesOut fs f p

def Filter.enters (f : Filter) (depth : Nat) : Bool := f.maxDepth.all (depth < ·)

def Filter.reaches (f : Filter) (depth : Nat) : Bool := f.maxDepth.all (depth ≤ ·)

/-- The files at or below a path, which lies `depth` directories below the root. The first argument
bounds how much deeper the walk goes. -/
def filesBelow (fs : FileSystem) (f : Filter) : Nat → (depth : Nat) → (path : String) → List String
  | 0, _, _ => []
  | n + 1, depth, path =>
    if f.reaches depth then
      match fs.node path with
      | .ok (.file _) => if f.takes path then [path] else []
      | .ok (.directory entries) =>
        if f.enters depth then
          (entryPaths fs f path entries).flatMap (filesBelow fs f n (depth + 1))
        else []
      | _ => []
    else []

/-- The files at or below a path, in the order of listings. -/
def files (fs : FileSystem) (f : Filter) (path : String) : Except CheckFault (List String) :=
  match fs.node path with
  | .ok (.file _) => .ok (if f.takes path then [path] else [])
  | .ok (.directory entries) =>
    .ok (Path.sort ((entryPaths fs f path entries).flatMap (filesBelow fs f fs.root.size 0)))
  | .ok (.link _) => .error (.traversal path AccessFault.missing.message)
  | .error fault => .error (.traversal path fault.message)

def isManifestAt (fs : FileSystem) (path : String) : Bool :=
  match fs.read path with
  | .ok bytes => isManifest bytes
  | .error _ => false

def manifests (fs : FileSystem) (f : Filter) (path : String) : Except CheckFault (List String) :=
  (files fs (f.withExtensions ["xml"]) path).map fun ps => ps.filter (isManifestAt fs)

end Discovery
end ExtensionLint
