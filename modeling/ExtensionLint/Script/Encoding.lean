import ExtensionLint.Report
import ExtensionLint.Script.Scan
import ExtensionLint.Text.Lines
import ExtensionLint.Text.Pattern

/-!
Calls of encoding functions: every line of code in which one of the watched names occurs, in any
letter case, is worth a warning. Comments and markup do not count.
-/
namespace ExtensionLint.Script.Encoding

open Text

def defaultFunctions : List String := [
  "base64_decode", "base64_encode", "gzinflate", "gzdeflate", "gzuncompress", "gzcompress",
  "str_rot13", "convert_uudecode", "convert_uuencode"]

/-- The names to watch for: trimmed, and without the blank ones. -/
def watched (functions : List String) : List (List Char) :=
  (functions.map fun f => trim f.toList).filter fun f => !f.isEmpty

/-- What a script is searched for: one pattern for all the names, if there are any. -/
def pattern? (functions : List String) : Option Pattern :=
  let names := watched functions
  if names.isEmpty then none else Pattern.read? (Pattern.anyOf names)

/-- The entry for a line, if a name occurs in its code. -/
def entryFor? (p : Pattern) (path : String) (index : Nat) (cleaned line : List Char) :
    Option Entry :=
  (p.find? cleaned).map fun found => {
    file := path
    severity := .warning
    message := s!"Encoding function {String.ofList found} found"
    line := some (index + 1)
    code := some (String.ofList line) }

/-- The entries for the lines from `index` on; cleaned lines go with the lines of the source. -/
def entriesFrom (p : Pattern) (path : String) :
    (index : Nat) → (cleaned lines : List (List Char)) → List Entry
  | index, c :: cleaned, l :: lines =>
    (entryFor? p path index c l).toList ++ entriesFrom p path (index + 1) cleaned lines
  | index, c :: cleaned, [] =>
    (entryFor? p path index c c).toList ++ entriesFrom p path (index + 1) cleaned []
  | _, [], _ => []

def check (functions : List String) (path : String) (source : List Char) :
    Except ScriptFault (List Entry) :=
  match pattern? functions with
  | none => .ok []
  | some p => (clean .all source).map fun cleaned =>
      entriesFrom p path 0 (physicalLines cleaned) (physicalLines source)

end ExtensionLint.Script.Encoding
