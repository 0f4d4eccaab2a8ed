import ExtensionLint.Rendering

/-!
Settings of a run: which files are looked at, which rules are run with what parameters, and how the
outcome is printed. Settings are given in layers, each of which changes what lies below it.
-/
namespace ExtensionLint

/-- Which files are looked at, and with what effort. -/
structure ScanSettings where
  /-- The number of files checked at a time, if it is set. -/
  threads : Option Nat := none
  /-- Seconds that the check of one file may take. -/
  timeout : Nat := 30
  included : List String := []
  excluded : List String := []
  maxDepth : Option Nat := none
  deriving DecidableEq, Repr

/-- Which rules are run, and what they look for. Names of rules are not checked here. -/
structure RuleChoice where
  enabled : List String := RuleId.all.map RuleId.label
  encodings : List String := Script.Encoding.defaultFunctions
  constants : List String := Script.Guard.defaultConstants
  /-- A directory with grammar documents that stand in for the bundled ones. -/
  grammarDir : Option String := none
  deriving DecidableEq, Repr

structure OutputSettings where
  format : OutputFormat := .human
  verbose : Bool := false
  quiet : Bool := false
  deriving DecidableEq, Repr

structure Settings where
  scan : ScanSettings := {}
  rules : RuleChoice := {}
  output : OutputSettings := {}
  logLevel : String := "warn"
  deriving DecidableEq, Repr

namespace Settings

/-- The second list, unless it is empty. -/
def orBelow (below above : List α) : List α := if above.isEmpty then below else above

/-- Scan settings over others: what can be unset or empty counts only where it is not. -/
def mergeScan (below above : ScanSettings) : ScanSettings where
  threads := above.threads <|> below.threads
  timeout := above.timeout
  included := orBelow below.included above.included
  excluded := orBelow below.excluded above.excluded
  maxDepth := above.maxDepth <|> below.maxDepth

def merge (below above : Settings) : Settings where
  scan := mergeScan below.scan above.scan
  rules := { above.rules with grammarDir := above.rules.grammarDir <|> below.rules.grammarDir }
  output := above.output
  logLevel := above.logLevel

def enabledRules (s : Settings) : Except SettingsFault (List RuleId) :=
  (s.rules.enabled.mapM RuleId.parse).mapError fun f => .invalid f.message

def mostThreads : Nat := 1000

def threadsFault? (n : Nat) : Option SettingsFault :=
  if n = 0 then some (.invalid "Number of threads must be greater than 0")
  else if mostThreads < n then
    some (.invalid s!"Number of threads cannot exceed {mostThreads}")
  else none

/-- Refuses settings that lie out of range or contradict each other. -/
def validate (s : Settings) : Except SettingsFault Unit := do
  if let some fault := s.scan.threads.bind threadsFault? then throw fault
  if s.scan.timeout = 0 then throw (.invalid "Timeout must be greater than 0")
  if s.output.verbose ∧ s.output.quiet then
    throw (.invalid "Cannot enable both verbose and quiet modes")
  if s.rules.enabled.isEmpty then throw (.invalid "At least one rule must be enabled")
  discard s.enabledRules

def ruleSettings (s : Settings) : Except SettingsFault RuleSettings := do
  let enabled ← s.enabledRules
  return { enabled, encodings := s.rules.encodings, constants := s.rules.constants }

def grammarSource (s : Settings) : Grammar.Source :=
  match s.rules.grammarDir with
  | some path => .directory path
  | none => .bundled

/-- How much is printed; quiet wins over verbose. -/
def verbosity (s : Settings) : Verbosity :=
  if s.output.quiet then .quiet else if s.output.verbose then .verbose else .normal

/-- How many files are checked at a time: as many as are asked for, or one for each processor. -/
def places (s : Settings) (processors : Nat) : Nat := s.scan.threads.getD processors

/-- Milliseconds that the check of one file may take. -/
def limit (s : Settings) : Nat := s.scan.timeout * 1000

end Settings
end ExtensionLint
