import ExtensionLint.Engine

/-!
How the checks of several files run beside each other. Each file has a task, and a task checks its file
while it holds one of a limited number of permits. Which of the tasks that can go on does so is left
open: a schedule is a list of moves.
-/
namespace ExtensionLint

/-- How far the check of a file has come. -/
inductive Task
  /-- It waits for a permit. -/
  | waiting
  /-- It holds a permit, and the file is being checked. -/
  | running
  /-- The check has ended, as the one with this number. -/
  | counted (number : Nat) (report : FileReport)
  /-- The end has been told and the permit is given back. -/
  | ended (report : FileReport)
  deriving DecidableEq, Repr

/-- What a task does next; tasks go by their places. -/
inductive Move
  | start (task : Nat)
  | count (task : Nat)
  | tell (task : Nat)
  deriving DecidableEq, Repr

structure Pool where
  /-- The files in the order in which they were given, each with its task. -/
  tasks : List (String × Task)
  /-- The permits that no task holds. -/
  permits : Nat
  /-- How many checks have ended. -/
  completed : Nat := 0
  /-- What has been told, oldest first. -/
  told : List Progress := []
  deriving DecidableEq, Repr

def Task.report? : Task → Option FileReport
  | ended report => some report
  | _ => none

namespace Pool

/-- The pool before the first move. There is always at least one permit. -/
def ofFiles (places : Nat) (paths : List String) : Pool where
  tasks := paths.map (·, .waiting)
  permits := max places 1

/-- The pool after a move, if the move can be made. -/
def step (check : String → FileReport) (p : Pool) : Move → Option Pool
  | .start i =>
    match p.tasks[i]? with
    | some (path, .waiting) =>
      if p.permits = 0 then none
      else some { p with tasks := p.tasks.set i (path, .running), permits := p.permits - 1 }
    | _ => none
  | .count i =>
    match p.tasks[i]? with
    | some (path, .running) =>
      let number := p.completed + 1
      some { p with
        tasks := p.tasks.set i (path, .counted number (check path))
        completed := number }
    | _ => none
  | .tell i =>
    match p.tasks[i]? with
    | some (path, .counted number report) =>
      some { p with
        tasks := p.tasks.set i (path, .ended report)
        permits := p.permits + 1
        told := p.told ++ [⟨.checking, number, p.tasks.length, some path⟩] }
    | _ => none

def run (check : String → FileReport) (p : Pool) (moves : List Move) : Option Pool :=
  moves.foldlM (step check) p

/-- The reports in the order of the files, once all tasks have ended. -/
def reports? (p : Pool) : Option (List FileReport) := p.tasks.mapM (·.2.report?)

end Pool
end ExtensionLint
