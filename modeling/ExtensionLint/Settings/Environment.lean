import ExtensionLint.Settings
import ExtensionLint.Text.LetterCase
import ExtensionLint.Text.Typed

/-! Settings that variables of the environment change. -/
namespace ExtensionLint

abbrev Environment := List (String × String)

structure Variable where
  name : String
  /-- The settings with a value of the variable; `none` if the value is not of its kind. -/
  set : (value : String) → Settings → Option Settings

namespace Settings

def scanVariable (name : String) (set : String → ScanSettings → Option ScanSettings) : Variable :=
  ⟨name, fun value s => (set value s.scan).map fun scan => { s with scan }⟩

def rulesVariable (name : String) (set : String → RuleChoice → RuleChoice) : Variable :=
  ⟨name, fun value s => some { s with rules := set value s.rules }⟩

def outputVariable (name : String) (set : String → OutputSettings → Option OutputSettings) :
    Variable :=
  ⟨name, fun value s => (set value s.output).map fun output => { s with output }⟩

/-- The variables, in the order in which they are looked at. Numbers and truth values may have blanks
around them; the name of a format may be in any letter case. -/
def knownVariables : List Variable := [
  scanVariable "EXTCHECK_THREADS" fun value s =>
    (Text.natural? (Text.trimmed value)).map fun n => { s with threads := some n },
  scanVariable "EXTCHECK_TIMEOUT" fun value s =>
    (Text.natural? (Text.trimmed value)).map fun n => { s with timeout := n },
  rulesVariable "EXTCHECK_RULES" fun value r => { r with enabled := Text.listItems value },
  rulesVariable "EXTCHECK_ENCODINGS" fun value r => { r with encodings := Text.listItems value },
  rulesVariable "EXTCHECK_CONSTANTS" fun value r => { r with constants := Text.listItems value },
  rulesVariable "EXTCHECK_GRAMMAR_DIR" fun value r => { r with grammarDir := some value },
  outputVariable "EXTCHECK_VERBOSE" fun value o =>
    (Text.truth? (Text.trimmed value)).map fun b => { o with verbose := b },
  outputVariable "EXTCHECK_QUIET" fun value o =>
    (Text.truth? (Text.trimmed value)).map fun b => { o with quiet := b },
  outputVariable "EXTCHECK_FORMAT" fun value o =>
    (OutputFormat.ofLabel? (Text.lowered value)).map fun format => { o with format },
  ⟨"EXTCHECK_LOG", fun value s => some { s with logLevel := value }⟩]

def withVariable (env : Environment) (s : Settings) (v : Variable) :
    Except SettingsFault Settings :=
  match env.lookup v.name with
  | none => .ok s
  | some value =>
    match v.set value s with
    | some s => .ok s
    | none => .error (.environment s!"Invalid {v.name} value: {value}")

def withEnvironment (env : Environment) (s : Settings) : Except SettingsFault Settings :=
  knownVariables.foldlM (withVariable env) s

end Settings
end ExtensionLint
