import ExtensionLint.Manifest.Grammar.Cache
import ExtensionLint.Manifest.TopLevel
import ExtensionLint.Manifest.Validation
import ExtensionLint.Markup.Document

/-!
The check of a manifest file. What is no well-formed document, or has another root, is no manifest and
passes.
-/
namespace ExtensionLint.Manifest

open Markup

def rootNames : List String := ["extension", "install"]

/-- The entries that the grammar for the type leads to: an error if it cannot be loaded. -/
def grammarFaults (path : String) : Except GrammarFault Grammar.Loaded → List Entry
  | .ok _ => []
  | .error fault => [(Diagnostic.error (.grammarUnavailable fault.message)).entry path]

def validationEntries (h : Hooks) (path : String) (root : Element) :
    Except GrammarFault Grammar.Loaded → List Entry
  | .ok (some g) => (validateDocument g h root).entries path
  | _ => []

def typedEntries (h : Hooks) (path : String) (type : ExtensionType)
    (loaded : Except GrammarFault Grammar.Loaded) (root : Element) : List Entry :=
  grammarFaults path loaded ++ (topLevelFindings type root).map (·.entry path) ++
    validationEntries h path root loaded

def rootEntries (load : ExtensionType → Except GrammarFault Grammar.Loaded) (h : Hooks)
    (path : String) (root : Element) : List Entry :=
  if rootNames.contains root.name then
    let value := (root.attr? "type").getD ""
    match ExtensionType.ofLabel? value with
    | none => [(Diagnostic.error (.unknownType value)).entry path]
    | some type => typedEntries h path type (load type) root
  else []

/-- The entries for a file; `load` yields the grammars. -/
def check (load : ExtensionType → Except GrammarFault Grammar.Loaded) (h : Hooks) (path : String)
    (source : List Char) : List Entry :=
  match document? source with
  | some root => rootEntries load h path root
  | none => []

end ExtensionLint.Manifest
