import ExtensionLint.Engine
import ExtensionLint.Reporter
import ExtensionLint.Settings.Layers

/-!
A run from the command line to what is printed. Nothing is read or written here: files and environment
are given, and the outcome tells what is to be printed where.
-/
namespace ExtensionLint

/-- What a run finds around it. -/
structure Surroundings where
  files : FileSystem
  environment : Environment := []
  /-- The directory that holds the user's settings. -/
  userDirectory : Option String := none
  startedAt : Timestamp
  /-- Whether the outcome is printed in colours. -/
  colors : Bool := false
  /-- Why names cannot be searched for together, if so. -/
  searchFault? : List String → Option String := fun _ => none

structure Outcome where
  /-- The exit status: 0 without errors, 1 with errors, 2 if nothing could be checked. -/
  status : Nat
  output : String := ""
  errors : String := ""
  deriving DecidableEq, Repr

/-- Why no check is made with the arguments, if so. -/
def Arguments.fault? (a : Arguments) (fs : FileSystem) : Option String :=
  if !fs.exists? a.path then some s!"Path does not exist: {a.path}"
  else if a.threads = some 0 then some "Number of threads must be greater than 0"
  else none

structure Run where
  path : String
  filter : Discovery.Filter
  engine : Engine
  style : Style

namespace Run

def usage : String := Style.lines [
  "Check an extension package: XML manifests against their grammar, encoded code and direct " ++
    "access guards",
  "",
  "Usage: extcheck [OPTIONS] <PATH>",
  "",
  "  -r, --rules <RULES>        rules to run: manifest,encoding,jexec",
  "  -t, --threads <N>          number of concurrent checks",
  "  -v, --verbose              tell everything",
  "  -q, --quiet                tell errors only",
  "  -f, --format <FORMAT>      human, json or summary",
  "  -c, --config <FILE>        settings file, in TOML or JSON",
  "      --include <PATTERN>    check files that match only",
  "      --exclude <PATTERN>    pass over files that match",
  "      --max-depth <N>        levels of directories to go down",
  "      --grammar-dir <DIR>    directory with dtd_<type>.json grammar documents",
  "      --encodings <NAMES>    encoding functions to flag",
  "      --constants <NAMES>    constants accepted in guards",
  "      --timeout <SECONDS>    time that one file may take",
  "      --log-level <LEVEL>    what to log",
  "  -h, --help                 tell this",
  "  -V, --version              tell the version"]

def versionLine : String := "extcheck 0.1.0\n"

def refused : Refusal → Outcome
  | .help => { status := 0, output := usage }
  | .version => { status := 0, output := versionLine }
  | _ => { status := 2, errors := usage }

def failed (v : Verbosity) (fault : CheckFault) : Outcome where
  status := 2
  errors := Reporter.fault ⟨v, none⟩ fault

def unsettled (v : Verbosity) (fault : SettingsFault) : Outcome where
  status := 2
  errors := Reporter.settingsFault ⟨v, none⟩ fault

def filterFor (s : Settings) : Except CheckFault Discovery.Filter := do
  let f ← (({} : Discovery.Filter).including s.scan.included)
  let f ← f.excluding s.scan.excluded
  return { f with maxDepth := s.scan.maxDepth }

/-- How grammars are loaded; a source that cannot be read is refused. -/
def loaderFor (fs : FileSystem) (s : Settings) : Except CheckFault Grammar.Loader :=
  match s.grammarSource.check fs with
  | .ok _ => .ok (s.grammarSource.read fs)
  | .error fault => .error (.grammar fault)

/-- The rules that are asked for. Functions that cannot be looked for together are refused. -/
def rulesFor (w : Surroundings) (s : RuleSettings) (load : Grammar.Loader) :
    Except CheckFault RuleSet :=
  let names := (Script.Encoding.watched s.encodings).map String.ofList
  let searched := s.enabled.contains .encoding && !names.isEmpty
  match if searched then w.searchFault? names else none with
  | some details => .error (.settings s!"Invalid encoding function list: {details}")
  | none => .ok (.ofSettings s load)

def ofSettings (w : Surroundings) (path : String) (s : Settings) : Except CheckFault Run := do
  let filter ← filterFor s
  let load ← loaderFor w.files s
  let ruleSettings ← s.ruleSettings.mapError CheckFault.ofSettings
  let rules ← rulesFor w ruleSettings load
  return {
    path, filter
    engine := { rules, limit := s.limit }
    style := { format := s.output.format, verbosity := s.verbosity, colors := w.colors } }

/-- The run that a command line asks for, or the outcome where there is none. -/
def prepare (w : Surroundings) (words : List String) : Except Outcome Run := do
  let a ← (Arguments.parse words).mapError refused
  let s ← (Settings.resolve w.files w.userDirectory w.environment a).mapError
    (unsettled a.verbosity)
  match a.fault? w.files with
  | some message => .error { status := 2, errors := s!"Error: {message}\n" }
  | none => (ofSettings w a.path s).mapError (failed s.verbosity)

def results (r : Run) (w : Surroundings) : Except CheckFault Results :=
  r.engine.checkPath w.files r.filter w.startedAt r.path

/-- A text that ends its last line. -/
def closed (text : String) : String := if text.endsWith "\n" then text else text ++ "\n"

def outcome (r : Run) : Except CheckFault Results → Outcome
  | .ok found =>
    { status := if found.hasErrors then 1 else 0, output := closed (r.style.render found) }
  | .error fault => failed r.style.verbosity fault

/-- The outcome of a command line. -/
def execute (w : Surroundings) (words : List String) : Outcome :=
  match prepare w words with
  | .ok r => r.outcome (r.results w)
  | .error o => o

end Run
end ExtensionLint
