/-! The kinds of extension that a manifest can declare. -/
namespace ExtensionLint

/-- The kind of extension that a package holds. -/
inductive ExtensionType
  | component
  | file
  | language
  | library
  | module
  | package
  | plugin
  | template
  deriving DecidableEq, Repr

namespace ExtensionType

def label : ExtensionType → String
  | component => "component"
  | file => "file"
  | language => "language"
  | library => "library"
  | module => "module"
  | package => "package"
  | plugin => "plugin"
  | template => "template"

def all : List ExtensionType :=
  [component, file, language, library, module, package, plugin, template]

def ofLabel? (s : String) : Option ExtensionType := all.find? (·.label = s)

theorem ofLabel?_label (t : ExtensionType) : ofLabel? t.label = some t := by cases t <;> decide

def grammarFile (t : ExtensionType) : String := s!"dtd_{t.label}.json"

/-- Whether manifests of the type name the client that they belong to. -/
def requiresClient : ExtensionType → Bool
  | module => true
  | template => true
  | _ => false

end ExtensionType
end ExtensionLint
