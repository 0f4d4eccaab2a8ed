import ExtensionLint.Arguments
import ExtensionLint.Settings.Document
import ExtensionLint.Settings.Environment

/-!
The settings of a run from all their layers. From the lowest to the highest: the defaults, a settings
file, the environment, and the command line.
-/
namespace ExtensionLint.Settings

/-- The settings with what the command line gives. Each of the flags for verbosity settles both. -/
def withArguments (a : Arguments) (s : Settings) : Settings where
  scan := {
    threads := a.threads <|> s.scan.threads
    timeout := a.timeout.getD s.scan.timeout
    included := orBelow s.scan.included a.included
    excluded := orBelow s.scan.excluded a.excluded
    maxDepth := a.maxDepth <|> s.scan.maxDepth }
  rules := {
    enabled := a.rules.getD s.rules.enabled
    encodings := a.encodings.getD s.rules.encodings
    constants := a.constants.getD s.rules.constants
    grammarDir := a.grammarDir <|> s.rules.grammarDir }
  output := {
    format := a.format.getD s.output.format
    verbose := if a.verbose || a.quiet then a.verbose else s.output.verbose
    quiet := if a.verbose || a.quiet then a.quiet else s.output.quiet }
  logLevel := a.logLevel.getD s.logLevel

/-- The directories in which a settings file is looked for: the working directory, and one of the
user's. -/
def directories (userDirectory : Option String) : List String :=
  "." :: (userDirectory.map fun d => Path.join d "extcheck").toList

def userDirectory (env : Environment) : Option String :=
  let home := match env.lookup "HOME" with
    | some "" => none
    | some d => some (Path.join d ".config")
    | none => none
  match env.lookup "XDG_CONFIG_HOME" with
  | some d => if d.startsWith "/" then some d else home
  | none => home

def candidates (userDirectory : Option String) (a : Arguments) : List String :=
  match a.config with
  | some path => [path]
  | none => (directories userDirectory).flatMap fun d => fileNames.map (Path.join d)

def loadFirst (fs : FileSystem) : (directories : List String) →
    Except SettingsFault (Option Settings)
  | [] => .ok none
  | d :: ds =>
    match loadFrom fs d with
    | .ok none => loadFirst fs ds
    | found => found

/-- The settings of the file that the command line names, or else of one that is found. -/
def loadFor (fs : FileSystem) (userDirectory : Option String) (a : Arguments) :
    Except SettingsFault (Option Settings) :=
  match a.config with
  | some path => (load fs path).map some
  | none => loadFirst fs (directories userDirectory)

def resolve (fs : FileSystem) (userDirectory : Option String) (env : Environment) (a : Arguments) :
    Except SettingsFault Settings := do
  let base := match ← loadFor fs userDirectory a with
    | some file => merge {} file
    | none => {}
  let s := (← withEnvironment env base).withArguments a
  s.validate
  return s

end ExtensionLint.Settings
