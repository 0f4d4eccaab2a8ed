import Mathlib.Algebra.GroupWithZero.Nat
import ExtensionLint.Engine.Pool

/-!
Every schedule of a pool of checks comes to the same reports. Each move brings one task one stage
further, so a schedule ends after three moves for each file; as long as a task has not ended, some task
can move.
-/
namespace ExtensionLint

namespace Task

/-- How many moves a task has still to make. -/
def movesLeft : Task → Nat
  | waiting => 3
  | running => 2
  | counted _ _ => 1
  | ended _ => 0

def holdsPermit : Task → Bool
  | running => true
  | counted _ _ => true
  | _ => false

/-- What a task holds of a report. -/
def reports : Task → List FileReport
  | counted _ report => [report]
  | ended report => [report]
  | _ => []

end Task

namespace Pool

variable {check : String → FileReport} {p q : Pool} {move : Move} {moves : List Move}

def movesLeft (p : Pool) : Nat := (p.tasks.map (·.2.movesLeft)).sum

def held (p : Pool) : Nat := p.tasks.countP (·.2.holdsPermit)

theorem exists_set_of_getElem? {α : Type} {items : List α} {i : Nat} {a : α} (h : items[i]? = some a) :
    ∃ before after, items = before ++ a :: after ∧ ∀ b, items.set i b = before ++ b :: after := by
  obtain ⟨hi, rfl⟩ := List.getElem?_eq_some_iff.1 h
  refine ⟨items.take i, items.drop (i + 1), by simp, fun b => ?_⟩
  exact List.set_eq_take_append_cons_drop.trans (if_pos hi)

/-- What a move can do: one task goes on to its next stage. -/
theorem step_cases (h : step check p move = some q) :
    ∃ before path task after, p.tasks = before ++ (path, task) :: after ∧
      ((task = .waiting ∧ 0 < p.permits ∧
          q = { p with
            tasks := before ++ (path, .running) :: after
            permits := p.permits - 1 }) ∨
        (task = .running ∧
          q = { p with
            tasks := before ++ (path, .counted (p.completed + 1) (check path)) :: after
            completed := p.completed + 1 }) ∨
        (∃ number report, task = .counted number report ∧
          q = { p with
            tasks := before ++ (path, .ended report) :: after
            permits := p.permits + 1
            told := p.told ++ [⟨.checking, number, p.tasks.length, some path⟩] })) := by
  cases move with
  | start i =>
      simp only [step] at h
      split at h <;> try contradiction
      rename_i path hi
      split at h <;> try contradiction
      rename_i hpermits
      obtain ⟨before, after, htasks, hset⟩ := exists_set_of_getElem? hi
      cases h
      exact ⟨before, path, _, after, htasks, .inl ⟨rfl, Nat.pos_of_ne_zero hpermits, by simp [hset]⟩⟩
  | count i =>
      simp only [step] at h
      split at h <;> try contradiction
      rename_i path hi
      obtain ⟨before, after, htasks, hset⟩ := exists_set_of_getElem? hi
      cases h
      exact ⟨before, path, _, after, htasks, .inr (.inl ⟨rfl, by simp [hset]⟩)⟩
  | tell i =>
      simp only [step] at h
      split at h <;> try contradiction
      rename_i path number report hi
      obtain ⟨before, after, htasks, hset⟩ := exists_set_of_getElem? hi
      cases h
      exact ⟨before, path, _, after, htasks, .inr (.inr ⟨number, report, rfl, by simp [hset]⟩)⟩

/-! ## What a run keeps -/

/-- What holds of the pool for a list of files at any time. -/
structure Sound (check : String → FileReport) (places : Nat) (paths : List String) (p : Pool) :
    Prop where
  paths_eq : p.tasks.map (·.1) = paths
  permits_add_held : p.permits + p.held = max places 1
  reports_eq : ∀ x ∈ p.tasks, ∀ report ∈ x.2.reports, report = check x.1

variable {places : Nat} {paths : List String}

theorem sound_ofFiles : Sound check places paths (ofFiles places paths) where
  paths_eq := by simp [ofFiles, Function.comp_def]
  permits_add_held := by simp [ofFiles, held, List.countP_map, Function.comp_def, Task.holdsPermit]
  reports_eq := by
    intro x hx report hreport
    obtain ⟨path, -, rfl⟩ := List.mem_map.1 hx
    simp [Task.reports] at hreport

theorem Sound.step (hp : Sound check places paths p) (h : step check p move = some q) :
    Sound check places paths q := by
  obtain ⟨hpaths, hpermits, hreports⟩ := hp
  obtain ⟨before, path, task, after, htasks, h⟩ := step_cases h
  rw [htasks] at hpaths hreports
  simp only [held, htasks] at hpermits
  -- the first move takes a permit and the last one gives it back
  obtain ⟨rfl, hpos, rfl⟩ | ⟨rfl, rfl⟩ | ⟨number, report, rfl, rfl⟩ := h
  · refine ⟨by simpa using hpaths, ?_, ?_⟩
    · simp [held, Task.holdsPermit] at hpermits ⊢; omega
    · simpa [or_imp, forall_and, Task.reports] using hreports
  · refine ⟨by simpa using hpaths, ?_, ?_⟩
    · simpa [held, Task.holdsPermit] using hpermits
    · simpa [or_imp, forall_and, Task.reports] using hreports
  · refine ⟨by simpa using hpaths, ?_, ?_⟩
    · simp [held, Task.holdsPermit] at hpermits ⊢; omega
    · simpa [or_imp, forall_and, Task.reports] using hreports

theorem movesLeft_step (h : step check p move = some q) : q.movesLeft + 1 = p.movesLeft := by
  obtain ⟨before, path, task, after, htasks, h⟩ := step_cases h
  obtain ⟨rfl, -, rfl⟩ | ⟨rfl, rfl⟩ | ⟨number, report, rfl, rfl⟩ := h <;>
    simp [movesLeft, htasks, Task.movesLeft] <;> omega

theorem run_cons : run check p (move :: moves) = (step check p move).bind (run check · moves) := rfl

theorem run_append {r : Pool} {more : List Move} (h : run check p moves = some q)
    (hmore : run check q more = some r) : run check p (moves ++ more) = some r := by
  rw [run, List.foldlM_append]
  exact Option.bind_eq_some_iff.2 ⟨q, h, hmore⟩

/-- What each move preserves, a run preserves. -/
theorem run_preserves {holds : Pool → Prop}
    (hstep : ∀ {p q : Pool} {move : Move}, holds p → step check p move = some q → holds q)
    (hp : holds p) (h : run check p moves = some q) : holds q := by
  induction moves generalizing p with
  | nil =>
      cases h
      exact hp
  | cons move moves ih =>
      obtain ⟨next, hnext, hrun⟩ := Option.bind_eq_some_iff.1 (run_cons ▸ h)
      exact ih (hstep hp hnext) hrun

theorem Sound.run (hp : Sound check places paths p) (h : run check p moves = some q) :
    Sound check places paths q :=
  run_preserves Sound.step hp h

/-! ## Where a run stops -/

/-- There are reports only once all tasks have ended. -/
theorem Sound.eq_of_reports? (hp : Sound check places paths p) {reports : List FileReport}
    (h : p.reports? = some reports) : reports = paths.map check := by
  obtain ⟨hpaths, -, hreports⟩ := hp
  rw [← hpaths, List.map_map]
  rw [Pool.reports?] at h
  generalize p.tasks = tasks at h hreports
  clear hpaths
  induction tasks generalizing reports with
  | nil =>
      cases h
      rfl
  | cons x tasks ih =>
      obtain ⟨path, task⟩ := x
      rw [List.mapM_cons] at h
      obtain ⟨report, hreport, h⟩ := Option.bind_eq_some_iff.1 h
      obtain ⟨rest, hrest, h⟩ := Option.bind_eq_some_iff.1 h
      cases h
      cases task <;> cases hreport
      have hhead : report = check path := hreports _ List.mem_cons_self _ (by simp [Task.reports])
      rw [hhead, ih hrest fun y hy => hreports y (List.mem_cons_of_mem _ hy)]
      rfl

theorem exists_run_to_end (check : String → FileReport) (p : Pool) :
    ∃ moves q, run check p moves = some q ∧ ∀ move, step check q move = none := by
  -- every move that can be made leaves one less to make
  induction h : p.movesLeft using Nat.strongRecOn generalizing p with
  | ind n ih =>
      by_cases hstuck : ∀ move, step check p move = none
      · exact ⟨[], p, rfl, hstuck⟩
      · obtain ⟨move, hmove⟩ := not_forall.1 hstuck
        obtain ⟨next, hstep⟩ := Option.ne_none_iff_exists'.1 hmove
        have hleft := movesLeft_step hstep
        obtain ⟨moves, q, hrun, hend⟩ := ih _ (by omega) next rfl
        exact ⟨move :: moves, q, by rw [run_cons, hstep]; exact hrun, hend⟩

end Pool
end ExtensionLint
