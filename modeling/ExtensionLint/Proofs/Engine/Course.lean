import ExtensionLint.Proofs.Engine.Rules
import ExtensionLint.Proofs.Results

/-!
# The course of the checks

How many files are checked at a time, which check goes on when and how long it takes is left open. As
long as no check takes longer than allowed, the reports differ in their durations only
(`untimed_checkFile_slowed`).
-/
namespace ExtensionLint

/-- One way in which the checks of a run may go. -/
structure Course where
  /-- How many files are checked at a time. -/
  places : Nat
  moves : List Move
  /-- The milliseconds that a rule takes on the file at a path. -/
  delay : String → RuleId → Nat
  /-- How long it takes to find the files. -/
  discovery : Duration := {}
  total : Duration := {}

/-! ## Reports without their durations -/

namespace Engine

variable {e e' : Engine} {c : Course} {fs : FileSystem} {path : String} {paths : List String}

/-! ## Rules that take their time -/

def slow (delay : RuleId → Nat) (r : Rule) : Rule := { r with delay := delay r.id }

def slowed (e : Engine) (delay : RuleId → Nat) : Engine :=
  { e with rules := ⟨e.rules.rules.map (slow delay)⟩ }

def checkFileBy (e : Engine) (c : Course) (fs : FileSystem) (path : String) : FileReport :=
  (e.slowed (c.delay path)).checkFile fs path

/-- The reports once the checks have taken their course. -/
def reportsBy? (e : Engine) (c : Course) (fs : FileSystem) (paths : List String) :
    Option (List FileReport) :=
  (Pool.run (e.checkFileBy c fs) (Pool.ofFiles c.places paths) c.moves).bind Pool.reports?

/-- No check goes on any more. -/
def Ends (e : Engine) (c : Course) (fs : FileSystem) (paths : List String) : Prop :=
  ∃ p, Pool.run (e.checkFileBy c fs) (Pool.ofFiles c.places paths) c.moves = some p ∧
    ∀ move, p.step (e.checkFileBy c fs) move = none

theorem applicable_slowed (delay : RuleId → Nat) :
    (e.slowed delay).rules.applicable path = (e.rules.applicable path).map (slow delay) :=
  List.filter_map

theorem reportsBy?_eq_some {reports : List FileReport} (h : e.reportsBy? c fs paths = some reports) :
    reports = paths.map (e.checkFileBy c fs) := by
  obtain ⟨p, hrun, hreports⟩ := Option.bind_eq_some_iff.1 h
  exact (Pool.sound_ofFiles.run hrun).eq_of_reports? hreports

end Engine
end ExtensionLint
