import ExtensionLint.Fault
import ExtensionLint.Report
import ExtensionLint.Rule
import ExtensionLint.Time

/-! The outcome of a run: a report for each file, and the numbers over all of them. -/
namespace ExtensionLint

inductive FileStatus
  /-- All rules for it have been run. -/
  | checked
  /-- No rule looks at it. -/
  | skipped (reason : String)
  /-- It could not be checked. -/
  | failed (message : String)
  deriving DecidableEq, Repr

namespace FileStatus

def isChecked : FileStatus → Bool
  | checked => true
  | _ => false

def isSkipped : FileStatus → Bool
  | skipped _ => true
  | _ => false

def isFailed : FileStatus → Bool
  | failed _ => true
  | _ => false

end FileStatus

structure FileReport where
  path : String
  status : FileStatus
  /-- The rules that have been run. -/
  rules : List RuleId := []
  entries : List Entry := []
  duration : Duration := {}
  deriving DecidableEq, Repr

namespace FileReport

def ofFault (path : String) (fault : CheckFault) (duration : Duration) : FileReport :=
  { path, status := .failed fault.message, duration }

def count (r : FileReport) (severity : Severity) : Nat := countOf severity r.entries

/-- Whether a file has an error or could not be checked. -/
def hasErrors (r : FileReport) : Bool := 0 < r.count .error || r.status.isFailed

end FileReport

/-! ### Counting -/

/-- How many files and entries of each kind there are. -/
structure Numbers where
  total : Nat := 0
  checked : Nat := 0
  skipped : Nat := 0
  failed : Nat := 0
  errors : Nat := 0
  warnings : Nat := 0
  notices : Nat := 0
  deriving DecidableEq, Repr

namespace Numbers

def countStatus (n : Numbers) : FileStatus → Numbers
  | .checked => { n with checked := n.checked + 1 }
  | .skipped _ => { n with skipped := n.skipped + 1 }
  | .failed _ => { n with failed := n.failed + 1 }

def countEntry (n : Numbers) (e : Entry) : Numbers :=
  match e.severity with
  | .error => { n with errors := n.errors + 1 }
  | .warning => { n with warnings := n.warnings + 1 }
  | .notice => { n with notices := n.notices + 1 }

def countFile (n : Numbers) (f : FileReport) : Numbers :=
  f.entries.foldl countEntry (n.countStatus f.status)

/-- The numbers of the given files, in one pass over them. -/
def ofFiles (files : List FileReport) : Numbers := files.foldl countFile { total := files.length }

end Numbers

/-! ### The outcome -/

/-- The outcome of a run. Its numbers are stored, and are always those of its files. -/
structure Results where
  startedAt : Timestamp
  files : List FileReport := []
  numbers : Numbers := .ofFiles files
  numbers_eq : numbers = .ofFiles files := by rfl
  /-- How long it took to find the files. -/
  discovery : Duration := {}
  /-- How long the whole run took. -/
  total : Duration := {}
  deriving DecidableEq, Repr

namespace Results

/-- The outcome for given files; the whole time is what the files took. -/
def aggregate (startedAt : Timestamp) (files : List FileReport) : Results where
  startedAt := startedAt
  files := files
  numbers := .ofFiles files
  total := files.foldl (fun d r => d.add r.duration) {}

def checkedFiles (r : Results) : Nat := r.numbers.checked

def skippedFiles (r : Results) : Nat := r.numbers.skipped

def failedFiles (r : Results) : Nat := r.numbers.failed

def count (r : Results) : Severity → Nat
  | .error => r.numbers.errors
  | .warning => r.numbers.warnings
  | .notice => r.numbers.notices

/-- All entries, file by file. -/
def entries (r : Results) : List Entry := r.files.flatMap (·.entries)

/-- Whether any file has an error or could not be checked. -/
def hasErrors (r : Results) : Bool := 0 < r.numbers.errors || 0 < r.numbers.failed

def isClean (r : Results) : Bool :=
  r.numbers.errors = 0 && r.numbers.warnings = 0 && r.numbers.notices = 0

end Results
end ExtensionLint
