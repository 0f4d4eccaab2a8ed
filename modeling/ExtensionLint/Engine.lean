import ExtensionLint.Discovery.Walk
import ExtensionLint.Results

/-!
Running rules over files. A file is read once, and the rules for it add their entries one after the
other; what happens to one file does not touch another.
-/
namespace ExtensionLint

/-- What rules are run, and how long they may take. -/
structure Engine where
  rules : RuleSet
  /-- Milliseconds that the check of one file may take. -/
  limit : Nat := 30000

namespace Engine

def noRuleApplies : String := "no enabled rule applies"

/-- What is told of a rule that cannot read a script. -/
def brokenOff : String := "Join error: a script ends inside the opener of a heredoc"

def runRules (rules : List Rule) (path : String) (content : List Char) :
    Except Script.ScriptFault (List Entry) :=
  (rules.mapM fun r : Rule => r.check path content).map List.flatten

def timeOf (rules : List Rule) : Nat := (rules.map (·.delay)).foldr (· + ·) 0

def reportOn (limit : Nat) (rules : List Rule) (path : String) (content : List Char) : FileReport :=
  let took := timeOf rules
  if limit < took then .ofFault path (.timeout path limit) (.ofMillis limit)
  else match runRules rules path content with
    | .ok entries =>
      { path, status := .checked, rules := rules.map (·.id), entries, duration := .ofMillis took }
    | .error _ => .ofFault path (.aborted brokenOff) (.ofMillis took)

/-- The report on a file. A file that no rule looks at is not read. -/
def checkFile (e : Engine) (fs : FileSystem) (path : String) : FileReport :=
  let rules := e.rules.applicable path
  if rules.isEmpty then { path, status := .skipped noRuleApplies }
  else match fs.read path with
    | .ok bytes => reportOn e.limit rules path (Text.Utf8.decodeLossy bytes)
    | .error fault => .ofFault path (.access fault) {}

def checkFiles (e : Engine) (fs : FileSystem) (startedAt : Timestamp) (paths : List String) :
    Results :=
  .aggregate startedAt (paths.map (e.checkFile fs))

def checkPath (e : Engine) (fs : FileSystem) (f : Discovery.Filter) (startedAt : Timestamp)
    (path : String) : Except CheckFault Results :=
  (Discovery.files fs f path).map (e.checkFiles fs startedAt)

end Engine

inductive Phase
  | discovery
  | checking
  | complete
  deriving DecidableEq, Repr

structure Progress where
  phase : Phase
  completed : Nat
  total : Nat
  /-- The file that has just been checked. -/
  file : Option String := none
  deriving DecidableEq, Repr

namespace Progress

def checking (files : List String) : List Progress :=
  files.mapIdx fun i file => ⟨.checking, i + 1, files.length, some file⟩

/-- The steps of a run over a path: the search, each file, and the end. -/
def ofRun (found : Except CheckFault (List String)) : List Progress :=
  let start : Progress := ⟨.discovery, 0, 0, none⟩
  match found with
  | .ok files => start :: checking files ++ [⟨.complete, files.length, files.length, none⟩]
  | .error _ => [start]

end Progress
end ExtensionLint
