/-! Findings as they are reported: severity, place and message. -/
namespace ExtensionLint

/-- How grave a finding is, mildest first. -/
inductive Severity
  /-- Advice on style. -/
  | notice
  /-- A problem of quality that blocks nothing. -/
  | warning
  /-- A problem of structure that breaks the package. -/
  | error
  deriving DecidableEq, Repr

namespace Severity

def label : Severity → String
  | notice => "notice"
  | warning => "warning"
  | error => "error"

def rank : Severity → Nat
  | notice => 0
  | warning => 1
  | error => 2

def compare (a b : Severity) : Ordering := Ord.compare a.rank b.rank

def all : List Severity := [notice, warning, error]

def ofLabel? (s : String) : Option Severity := all.find? (·.label = s)

theorem ofLabel?_label (s : Severity) : ofLabel? s.label = some s := by cases s <;> rfl

end Severity

structure Entry where
  file : String
  severity : Severity
  message : String
  /-- Line number from one, where the finding belongs to a line. -/
  line : Option Nat := none
  /-- The text of that line. -/
  code : Option String := none
  deriving DecidableEq, Repr

def countOf (severity : Severity) (entries : List Entry) : Nat :=
  entries.countP (·.severity = severity)

/-- The entries reported so far, oldest first. -/
structure Report where
  entries : List Entry := []
  deriving DecidableEq, Repr

namespace Report

def add (r : Report) (e : Entry) : Report := ⟨r.entries ++ [e]⟩

/-- The entries of one severity, in order. -/
def bySeverity (r : Report) (severity : Severity) : List Entry :=
  r.entries.filter (·.severity = severity)

def count (r : Report) (severity : Severity) : Nat := countOf severity r.entries

@[simp] theorem entries_add (r : Report) (e : Entry) : (r.add e).entries = r.entries ++ [e] := rfl

theorem foldl_add (entries : List Entry) (r : Report) :
    entries.foldl add r = ⟨r.entries ++ entries⟩ := by
  induction entries generalizing r with
  | nil => simp
  | cons e entries ih => simp [ih]

end Report
end ExtensionLint
