import ExtensionLint.Manifest.Check
import ExtensionLint.Manifest.Grammar.Store
import ExtensionLint.Script.Encoding
import ExtensionLint.Script.Guard

/-!
Rules: checks of single files. A rule looks at files of one kind, and several rules do not know of each
other. The rules in force are a list without repetitions, in the order in which they were asked for.
-/
namespace ExtensionLint

inductive RuleId
  | manifest
  | encoding
  | guard
  deriving DecidableEq, Repr

namespace RuleId

def label : RuleId → String
  | manifest => "manifest"
  | encoding => "encoding"
  | guard => "jexec"

def all : List RuleId := [manifest, encoding, guard]

/-- The rule with a name, in any letter case and with blanks around it. -/
def parse (s : String) : Except CheckFault RuleId :=
  let wanted := String.ofList (Text.lowerAscii (Text.trim s.toList))
  match all.find? (·.label = wanted) with
  | some id => .ok id
  | none => .error (.unknownRule s)

/-- The name of a rule where its kind is shown. -/
def kind : RuleId → String
  | manifest => "Manifest"
  | encoding => "Encoding"
  | guard => "Jexec"

def title : RuleId → String
  | manifest => "XML manifest"
  | encoding => "Encoding functions"
  | guard => "Direct access guard"

def extension : RuleId → String
  | manifest => "xml"
  | encoding => "php"
  | guard => "php"

end RuleId

structure Rule where
  id : RuleId
  title : String
  /-- Whether a file is looked at, by its path. -/
  appliesTo : String → Bool
  check : (path : String) → (content : List Char) → Except Script.ScriptFault (List Entry)
  /-- Milliseconds that the rule takes on a file. -/
  delay : Nat := 0

def hasExtension (extension path : String) : Bool :=
  match Path.extension? path with
  | some e => Text.eqIgnoringAsciiCase e.toList extension.toList
  | none => false

abbrev Grammar.Loader := ExtensionType → Except GrammarFault Grammar.Loaded

/-- A rule with its usual title, for the files that it usually looks at. -/
def Rule.standard (id : RuleId)
    (check : String → List Char → Except Script.ScriptFault (List Entry)) : Rule where
  id := id
  title := id.title
  appliesTo := hasExtension id.extension
  check := check

namespace Rule

def manifest (load : Grammar.Loader) (h : Manifest.Hooks) : Rule :=
  standard .manifest fun path content => .ok (Manifest.check load h path content)

def encoding (functions : List String) : Rule :=
  standard .encoding (Script.Encoding.check functions)

/-- The check for guards; blank constants do not count. -/
def guard (constants : List String) : Rule :=
  standard .guard (Script.Guard.check (Script.Guard.kept constants))

end Rule

/-- Which rules are in force, and what they look for. -/
structure RuleSettings where
  enabled : List RuleId := RuleId.all
  encodings : List String := Script.Encoding.defaultFunctions
  constants : List String := Script.Guard.defaultConstants
  deriving DecidableEq, Repr

structure RuleSet where
  rules : List Rule := []

/-- Each item at its first place only. -/
def firstPlaces [BEq α] (items : List α) : List α :=
  items.foldl (fun seen a => if seen.contains a then seen else seen ++ [a]) []

namespace RuleSet

def build (s : RuleSettings) (load : Grammar.Loader) : RuleId → Rule
  | .manifest => .manifest load Manifest.defaultHooks
  | .encoding => .encoding s.encodings
  | .guard => .guard s.constants

/-- The enabled rules, each once. -/
def ofSettings (s : RuleSettings) (load : Grammar.Loader) : RuleSet :=
  ⟨(firstPlaces s.enabled).map (build s load)⟩

def register (s : RuleSet) (r : Rule) : RuleSet := ⟨s.rules ++ [r]⟩

def ids (s : RuleSet) : List RuleId := s.rules.map (·.id)

def applicable (s : RuleSet) (path : String) : List Rule := s.rules.filter (·.appliesTo path)

def describe (s : RuleSet) : String :=
  let kinds := ", ".intercalate (s.ids.map RuleId.kind)
  s!"RuleSet \x7b rules: [{kinds}] \x7d"

end RuleSet
end ExtensionLint
