import ExtensionLint.Data.Json
import ExtensionLint.Results.Document
import ExtensionLint.Text.Lines

/-!
The outcome of a run as it is printed: for people entry by entry, as a summary, or as a document. How
much is printed depends on the verbosity.
-/
namespace ExtensionLint

inductive Verbosity
  /-- Errors and their number. -/
  | quiet
  /-- All findings. -/
  | normal
  /-- Findings with their lines, and what became of every file. -/
  | verbose
  deriving DecidableEq, Repr

inductive OutputFormat
  | human
  | json
  | summary
  deriving DecidableEq, Repr

namespace OutputFormat

def label : OutputFormat → String
  | human => "human"
  | json => "json"
  | summary => "summary"

def all : List OutputFormat := [human, json, summary]

def ofLabel? (s : String) : Option OutputFormat := all.find? (·.label = s)

theorem ofLabel?_label (f : OutputFormat) : ofLabel? f.label = some f := by cases f <;> decide

end OutputFormat

structure Style where
  format : OutputFormat
  verbosity : Verbosity
  colors : Bool := false

inductive Color
  | red
  | green
  | yellow
  | cyan

/-- The number of a colour in escape sequences. -/
def Color.code : Color → String
  | red => "31"
  | green => "32"
  | yellow => "33"
  | cyan => "36"

def Severity.color : Severity → Color
  | error => .red
  | warning => .yellow
  | notice => .cyan

namespace Style

def isVerbose (s : Style) : Bool := s.verbosity = .verbose

def paint (s : Style) (color : Color) (text : String) : String :=
  if s.colors then s!"\x1b[{color.code}m{text}\x1b[0m" else text

def lines (ls : List String) : String := String.join (ls.map (· ++ "\n"))

def plain (text : String) : List String := (Text.plainLines text.toList).map String.ofList

def location (e : Entry) : String :=
  match e.line with
  | some n => s!"{e.file}:{n}"
  | none => e.file

/-- The lines for an entry: its first line tells place and severity, the others are indented. -/
def entryLines (s : Style) (e : Entry) : List String :=
  let message := plain e.message
  let first := message.head?.getD ""
  let severity := s.paint e.severity.color e.severity.label
  let code := if s.isVerbose then e.code.toList else []
  s!"{location e}: {severity}: {first}" ::
    (message.drop 1).map ("    " ++ ·) ++ code.map fun c => s!"    | {Text.trimmed c}"

/-- The line for a file that could not be checked. -/
def failureLine (s : Style) (path message : String) : String :=
  let failed := s.paint .yellow "failed"
  s!"{path}: {failed}: {message}"

def badge (s : Style) (r : FileReport) : String :=
  match r.status with
  | .checked => if r.entries.isEmpty then s.paint .green "✓ CLEAN" else s.paint .red "✗ FINDINGS"
  | .skipped _ => s.paint .cyan "- SKIPPED"
  | .failed _ => s.paint .yellow "⚠ FAILED"

def statusLines (s : Style) (r : FileReport) : List String :=
  match r.status with
  | .failed message => [s.failureLine r.path message]
  | .skipped reason => if s.isVerbose then ["    " ++ reason] else []
  | .checked => []

def fileLines (s : Style) (r : FileReport) : List String :=
  let header := s!"{s.badge r}  {r.path} ({r.duration.brief})"
  (if s.isVerbose then [header] else []) ++ r.entries.flatMap s.entryLines ++ s.statusLines r

def quietFileLines (s : Style) (r : FileReport) : List String :=
  let failure := match r.status with
    | .failed message => [s.failureLine r.path message]
    | _ => []
  (r.entries.filter (·.severity = .error)).flatMap s.entryLines ++ failure

def countLine (s : Style) (color : Color) (label : String) (n : Nat) : String :=
  s!"  {s.paint color label} {n}"

/-- A line of the summary that is left out at zero. -/
def presentLines (s : Style) (color : Color) (label : String) (n : Nat) : List String :=
  if n = 0 then [] else [s.countLine color label n]

def summaryLines (s : Style) (r : Results) : List String :=
  ["Check Summary:", s!"  Total files: {r.numbers.total}", s!"  Checked: {r.checkedFiles}"] ++
    s.presentLines .cyan "Skipped:" r.skippedFiles ++
    s.presentLines .yellow "Failed:" r.failedFiles ++
    [ s.countLine .red "Errors:" (r.count .error),
      s.countLine .yellow "Warnings:" (r.count .warning),
      s.countLine .cyan "Notices:" (r.count .notice),
      s!"  Duration: {r.total.brief}"] ++
    if s.isVerbose then
      [s!"  Discovery: {r.discovery.brief}", s!"  Started: {r.startedAt.brief}"]
    else []

def quietLines (s : Style) (r : Results) : List String :=
  let total := s!"Errors: {r.count .error} Failed: {r.failedFiles}"
  r.files.flatMap s.quietFileLines ++ if r.hasErrors then [total] else []

def humanLines (s : Style) (r : Results) : List String :=
  match s.verbosity with
  | .quiet => s.quietLines r
  | _ =>
    r.files.flatMap s.fileLines ++ (if r.files.isEmpty then [] else [""]) ++ s.summaryLines r

def errorsOnly (r : FileReport) : FileReport :=
  { r with entries := r.entries.filter (·.severity = .error) }

/-- The outcome as a document; the numbers count all entries whatever is printed. -/
def document (s : Style) (r : Results) : String :=
  let files := if s.verbosity = .quiet then r.files.map errorsOnly else r.files
  Data.Json.writeIndented (r.toValue files)

def render (s : Style) (r : Results) : String :=
  match s.format with
  | .human => lines (s.humanLines r)
  | .summary => lines (s.summaryLines r)
  | .json => s.document r

end Style
end ExtensionLint
