import ExtensionLint.Fault
import ExtensionLint.Glob
import ExtensionLint.Path
import ExtensionLint.Text.LetterCase

/-! Which files of a tree are looked for. -/
namespace ExtensionLint.Discovery

/-- What decides whether a file is taken. -/
structure Filter where
  /-- Extensions in lower case. -/
  extensions : List String := ["xml", "php"]
  /-- Patterns of which one has to match, if there are any. -/
  included : List Glob := []
  excluded : List Glob := []
  /-- How many directories may lie between the root and a file. -/
  maxDepth : Option Nat := none
  followLinks : Bool := false

namespace Filter

def readPattern (pattern : String) : Except CheckFault Glob :=
  match Glob.parse pattern with
  | .ok g => .ok g
  | .error fault =>
    let details := s!"error parsing glob '{pattern}': {fault.message}"
    .error (.settings s!"Invalid glob pattern '{pattern}': {details}")

def withExtensions (f : Filter) (extensions : List String) : Filter :=
  { f with extensions := extensions.map Text.lowered }

def including (f : Filter) (patterns : List String) : Except CheckFault Filter :=
  (patterns.mapM readPattern).map fun globs => { f with included := globs }

def excluding (f : Filter) (patterns : List String) : Except CheckFault Filter :=
  (patterns.mapM readPattern).map fun globs => { f with excluded := globs }

def takesExtension (f : Filter) (path : String) : Bool :=
  match Path.extension? path with
  | some e => f.extensions.contains (Text.lowered e)
  | none => false

/-- Whether a file at the path is taken. What is excluded is not taken even if it is included. -/
def takes (f : Filter) (path : String) : Bool :=
  f.takesExtension path && !f.excluded.any (·.isMatch path) &&
    (f.included.isEmpty || f.included.any (·.isMatch path))

end Filter
end ExtensionLint.Discovery
