import ExtensionLint.Proofs.Rendering
import ExtensionLint.Proofs.Results.Document

/-!
# Quiet output tells the verdict

What is printed quietly for people is what keeps the run from succeeding, in order, and how much of it there
is (`render_quiet_of_hasErrors`); nothing is printed if there is none. A quiet document is that of the run
without the entries that are no errors. Both together are `quiet_faithful`.
-/

namespace ExtensionLint

open Data

/-- What keeps a run from succeeding: an error, or a file that could not be checked. -/
inductive Trouble
  | error (e : Entry)
  | failure (path message : String)
  deriving DecidableEq, Repr

def Trouble.isError : Trouble → Bool
  | error _ => true
  | failure .. => false

/-- The failure of a file with the given status, if it has failed. -/
def FileStatus.failures (path : String) : FileStatus → List Trouble
  | failed message => [.failure path message]
  | _ => []

namespace FileReport

/-- The errors of a file, and after them that it could not be checked. -/
def troubles (r : FileReport) : List Trouble :=
  (r.entries.filter (·.severity = .error)).map .error ++ r.status.failures r.path

theorem countP_isError_troubles (r : FileReport) :
    r.troubles.countP Trouble.isError = r.count .error := by
  have hfailures : (r.status.failures r.path).countP Trouble.isError = 0 := by cases r.status <;> rfl
  have hall : Trouble.isError ∘ Trouble.error = fun _ => true := rfl
  rw [troubles, List.countP_append, List.countP_map, hfailures, hall, List.countP_true,
    ← List.countP_eq_length_filter]
  rfl

theorem countP_not_isError_troubles (r : FileReport) :
    r.troubles.countP (!·.isError) = if r.status.isFailed then 1 else 0 := by
  have hfailures :
      (r.status.failures r.path).countP (!·.isError) = if r.status.isFailed then 1 else 0 := by
    cases r.status <;> rfl
  have hnone : (!·.isError) ∘ Trouble.error = fun _ => false := rfl
  rw [troubles, List.countP_append, List.countP_map, hfailures, hnone, List.countP_false]
  exact Nat.zero_add _

end FileReport

namespace Results

variable {r : Results}

/-- What keeps the run from succeeding, file by file. -/
def troubles (r : Results) : List Trouble := r.files.flatMap FileReport.troubles

theorem countP_isError_troubles (r : Results) : r.troubles.countP Trouble.isError = r.count .error := by
  rw [troubles, List.countP_flatMap, count_eq_sum]
  exact congrArg _ (List.map_congr_left fun f _ => f.countP_isError_troubles)

theorem countP_not_isError_troubles (r : Results) : r.troubles.countP (!·.isError) = r.failedFiles := by
  rw [troubles, failedFiles_eq_countP]
  induction r.files with
  | nil => rfl
  | cons f files ih =>
      rw [List.flatMap_cons, List.countP_append, f.countP_not_isError_troubles, ih, List.countP_cons,
        Nat.add_comm]

theorem troubles_eq_nil_iff : r.troubles = [] ↔ r.hasErrors = false := by
  have hlength : r.troubles.length = r.count .error + r.failedFiles := by
    rw [← countP_isError_troubles, ← countP_not_isError_troubles]
    simpa using List.length_eq_countP_add_countP Trouble.isError
  rw [← List.length_eq_zero_iff, hlength, hasErrors, Bool.or_eq_false_iff]
  simp [count, failedFiles]

end Results

namespace Style

/-! ## Output for people -/

theorem lines_append (ls ms : List String) : lines (ls ++ ms) = lines ls ++ lines ms := by
  rw [lines, List.map_append, String.join_append]
  rfl

theorem lines_flatMap {α : Type} (f : α → List String) (as : List α) :
    lines (as.flatMap f) = String.join (as.map fun a => lines (f a)) := by
  induction as with
  | nil => rfl
  | cons a as ih => rw [List.flatMap_cons, lines_append, ih, List.map_cons, String.join_cons]

def troubleLines (s : Style) : Trouble → List String
  | .error e => s.entryLines e
  | .failure path message => [s.failureLine path message]

/-- How a trouble is printed. -/
def troubleText (s : Style) (t : Trouble) : String := lines (s.troubleLines t)

theorem quietFileLines_eq (s : Style) (r : FileReport) :
    s.quietFileLines r = r.troubles.flatMap s.troubleLines := by
  rw [quietFileLines, FileReport.troubles, List.flatMap_append, List.flatMap_map]
  cases r.status <;> rfl

theorem quietLines_eq (s : Style) (r : Results) : s.quietLines r =
    r.troubles.flatMap s.troubleLines ++
      if r.hasErrors then [s!"Errors: {r.count .error} Failed: {r.failedFiles}"] else [] := by
  rw [quietLines, Results.troubles, List.flatMap_assoc, funext s.quietFileLines_eq]

/-- Without the code of the lines, nothing but the colours matters. -/
theorem troubleLines_quiet (colors : Bool) : troubleLines ⟨.human, .quiet, colors⟩ =
    troubleLines ⟨.human, .normal, colors⟩ := by
  funext t
  cases t <;> rfl

theorem render_quiet_of_not_hasErrors {r : Results} (h : r.hasErrors = false) (colors : Bool) :
    render ⟨.human, .quiet, colors⟩ r = "" := by
  have hlines : quietLines ⟨.human, .quiet, colors⟩ r = [] := by
    rw [quietLines_eq, Results.troubles_eq_nil_iff.2 h, h]
    rfl
  exact congrArg lines hlines

theorem render_quiet_of_hasErrors {r : Results} (h : r.hasErrors) (colors : Bool) :
    render ⟨.human, .quiet, colors⟩ r =
      String.join (r.troubles.map (troubleText ⟨.human, .normal, colors⟩)) ++
        s!"Errors: {r.troubles.countP Trouble.isError} Failed: {r.troubles.countP (!·.isError)}\n" := by
  have hlines : render ⟨.human, .quiet, colors⟩ r = lines (quietLines ⟨.human, .quiet, colors⟩ r) := rfl
  rw [hlines, quietLines_eq, if_pos h, troubleLines_quiet, lines_append, lines_flatMap,
    Results.countP_isError_troubles, Results.countP_not_isError_troubles]
  exact congrArg _ ((lines_cons _ _).trans String.append_empty)

/-! ## The verdict -/

/-- Quiet output is empty exactly if the run has no errors. Otherwise it is what other output says of every
error and of every file that could not be checked, in their order, and one line that tells how many of each
there are. A quiet document is read back as what the document of the run is read back as, without the
entries that are no errors; all numbers are those of the run. -/
theorem quiet_faithful (r : Results) (colors : Bool) :
    (render ⟨.human, .quiet, colors⟩ r = "" ↔ r.hasErrors = false) ∧
    (r.hasErrors → render ⟨.human, .quiet, colors⟩ r =
      String.join (r.troubles.map (troubleText ⟨.human, .normal, colors⟩)) ++
        s!"Errors: {r.troubles.countP Trouble.isError} Failed: {r.troubles.countP (!·.isError)}\n") ∧
    (r.Has64Bits → ∀ verbosity ≠ .quiet,
      Json.parse? (render ⟨.json, verbosity, colors⟩ r) = some (r.toValue r.files) ∧
      Json.parse? (render ⟨.json, .quiet, colors⟩ r) = some (onlyErrors (r.toValue r.files))) := by
  refine ⟨⟨fun h => ?_, fun h => render_quiet_of_not_hasErrors h colors⟩,
    fun h => render_quiet_of_hasErrors h colors, fun h verbosity hverbosity => ⟨?_, ?_⟩⟩
  · by_contra herrors
    rw [Bool.not_eq_false] at herrors
    rw [render_quiet_of_hasErrors herrors] at h
    -- the line with the numbers is there, and it is ended
    have hbreak := (String.append_eq_empty_iff.1 (String.append_eq_empty_iff.1 h).2).2
    exact absurd hbreak (by decide)
  · have hread := Results.parse?_document h ⟨.json, verbosity, colors⟩
    rwa [if_neg hverbosity] at hread
  · rw [onlyErrors_toValue]
    exact Results.parse?_document h ⟨.json, .quiet, colors⟩

def mixedResults : Results := .aggregate ⟨0, 0⟩ [
  { path := "demo.xml", status := .checked, duration := ⟨0, 5⟩
    entries := [⟨"demo.xml", .error, "no <name>\r\nno <files>", none, none⟩,
      ⟨"demo.xml", .notice, "late", some 7, some "eval()"⟩] },
  { path := "broken.php", status := .failed "gone" },
  { path := "image.png", status := .skipped "no rule" }]

theorem quiet_faithful_mixed :
    mixedResults.hasErrors ∧ mixedResults.Has64Bits ∧
    render ⟨.human, .quiet, false⟩ mixedResults =
      "demo.xml: error: no <name>\n    no <files>\nbroken.php: failed: gone\nErrors: 1 Failed: 1\n" ∧
    Json.parse? (render ⟨.json, .quiet, false⟩ mixedResults) =
      some (onlyErrors (mixedResults.toValue mixedResults.files)) := by
  have hbits : mixedResults.Has64Bits := by decide
  obtain ⟨-, hhuman, hjson⟩ := quiet_faithful mixedResults false
  exact ⟨by decide, hbits, (hhuman (by decide)).trans (by decide), (hjson hbits .normal (by decide)).2⟩

end Style
end ExtensionLint
