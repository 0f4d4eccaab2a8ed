import Mathlib.Algebra.BigOperators.Group.List.Basic
import Mathlib.Algebra.GroupWithZero.Nat
import ExtensionLint.Results

/-!
# The numbers of a run

The numbers over all files are those that counting gives, file by file and entry by entry, and they are
sums over the files: neither the order of the files nor how they are divided matters
(`aggregate_numbers`).
-/

namespace ExtensionLint

open FileStatus

/-! ## Counting -/

namespace Numbers

instance : Add Numbers where
  add a b := ⟨a.total + b.total, a.checked + b.checked, a.skipped + b.skipped, a.failed + b.failed,
    a.errors + b.errors, a.warnings + b.warnings, a.notices + b.notices⟩

theorem add_eq (a b : Numbers) : a + b =
    ⟨a.total + b.total, a.checked + b.checked, a.skipped + b.skipped, a.failed + b.failed,
      a.errors + b.errors, a.warnings + b.warnings, a.notices + b.notices⟩ := rfl

/-- The numbers of files, each counted on its own. -/
def recount (files : List FileReport) : Numbers where
  total := files.length
  checked := files.countP (·.status.isChecked)
  skipped := files.countP (·.status.isSkipped)
  failed := files.countP (·.status.isFailed)
  errors := (files.map (·.count .error)).sum
  warnings := (files.map (·.count .warning)).sum
  notices := (files.map (·.count .notice)).sum

theorem foldl_countEntry (n : Numbers) (es : List Entry) : es.foldl countEntry n = { n with
    errors := n.errors + countOf .error es
    warnings := n.warnings + countOf .warning es
    notices := n.notices + countOf .notice es } := by
  induction es generalizing n with
  | nil => rfl
  | cons e es ih =>
      rw [List.foldl_cons, ih]
      cases he : e.severity <;> simp [countEntry, countOf, he] <;> omega

/-- Counting a file adds its numbers; it belongs to the total from the start. -/
theorem countFile_add (n : Numbers) (f : FileReport) (files : List FileReport) :
    n.countFile f + { recount files with total := 0 } =
      n + { recount (f :: files) with total := 0 } := by
  rw [countFile, foldl_countEntry]
  cases hf : f.status <;>
    simp [add_eq, countStatus, recount, FileReport.count, hf, isChecked, isSkipped, isFailed] <;> omega

theorem foldl_countFile (n : Numbers) (files : List FileReport) :
    files.foldl countFile n = n + { recount files with total := 0 } := by
  induction files generalizing n with
  | nil => rfl
  | cons f files ih => rw [List.foldl_cons, ih, countFile_add]

/-- One pass over the files finds the same numbers as counting each on its own. -/
theorem ofFiles_eq_recount (files : List FileReport) : ofFiles files = recount files := by
  rw [ofFiles, foldl_countFile]
  simp [add_eq, recount]

theorem recount_append (files more : List FileReport) :
    recount (files ++ more) = recount files + recount more := by
  simp [recount, add_eq]

theorem recount_eq_of_perm {files files' : List FileReport} (h : files.Perm files') :
    recount files = recount files' := by
  simp only [recount, h.length_eq, h.countP_eq, (h.map _).sum_eq]

end Numbers

/-! ## Files with errors -/

theorem FileStatus.isFailed_iff {status : FileStatus} :
    status.isFailed ↔ ∃ message, status = .failed message := by
  cases status <;> simp [isFailed]

theorem FileReport.hasErrors_iff {r : FileReport} :
    r.hasErrors ↔ (∃ entry ∈ r.entries, entry.severity = .error) ∨ r.status.isFailed := by
  simp [hasErrors, count, countOf, List.countP_pos_iff]

/-! ## The numbers of results -/

theorem Duration.toNanos_ofNanos (n : Nat) : (ofNanos n).toNanos = n := Nat.div_add_mod' ..

namespace Results

variable {r : Results}

theorem numbers_eq_recount (r : Results) : r.numbers = .recount r.files :=
  r.numbers_eq.trans (Numbers.ofFiles_eq_recount _)

theorem count_eq_sum (r : Results) (s : Severity) : r.count s = (r.files.map (·.count s)).sum := by
  cases s <;> rw [count, numbers_eq_recount] <;> rfl

theorem skippedFiles_eq_countP (r : Results) : r.skippedFiles = r.files.countP (·.status.isSkipped) :=
  congrArg Numbers.skipped r.numbers_eq_recount

theorem failedFiles_eq_countP (r : Results) : r.failedFiles = r.files.countP (·.status.isFailed) :=
  congrArg Numbers.failed r.numbers_eq_recount

/-- A run has errors if some file has one or could not be checked. -/
theorem hasErrors_iff : r.hasErrors ↔ ∃ f ∈ r.files, f.hasErrors := by
  rw [hasErrors, numbers_eq_recount]
  simp only [Numbers.recount, FileReport.hasErrors, Bool.or_eq_true, decide_eq_true_eq,
    List.sum_pos_iff_exists_pos_nat, List.mem_map, exists_exists_and_eq_and, List.countP_pos_iff,
    ← exists_or, ← and_or_left]

/-! ## Totals of the numbers -/

theorem length_eq_countOf (es : List Entry) :
    countOf .error es + countOf .warning es + countOf .notice es = es.length := by
  induction es with
  | nil => rfl
  | cons e es ih =>
      cases he : e.severity <;> simp [countOf, he] at ih ⊢ <;> omega

/-- Each file has one status, and each entry one severity. -/
theorem numbers_add_up (r : Results) :
    r.checkedFiles + r.skippedFiles + r.failedFiles = r.files.length ∧
      r.count .error + r.count .warning + r.count .notice = r.entries.length := by
  simp only [checkedFiles, skippedFiles, failedFiles, count, numbers_eq_recount, entries]
  induction r.files with
  | nil => exact ⟨rfl, rfl⟩
  | cons f files ih =>
      obtain ⟨hfiles, hentries⟩ := ih
      have hseverities := length_eq_countOf f.entries
      have hstatus : (if f.status.isChecked then 1 else 0) + (if f.status.isSkipped then 1 else 0) +
          (if f.status.isFailed then 1 else 0) = 1 := by
        cases f.status <;> rfl
      simp only [Numbers.recount, List.countP_cons, List.length_cons, List.map_cons, List.sum_cons,
        List.flatMap_cons, List.length_append, FileReport.count] at hfiles hentries ⊢
      omega

theorem isClean_iff : r.isClean ↔ ∀ f ∈ r.files, f.entries = [] := by
  have hsum := r.numbers_add_up.2
  have hclean : r.isClean ↔ r.entries.length = 0 := by
    rw [← hsum]
    simp only [isClean, count, Bool.and_eq_true, decide_eq_true_eq]
    omega
  rw [hclean, List.length_eq_zero_iff, entries, List.flatMap_eq_nil_iff]

/-! ## The results for given files -/

theorem total_aggregate (startedAt : Timestamp) (files : List FileReport) :
    (aggregate startedAt files).total = .ofNanos (files.map (·.duration.toNanos)).sum := by
  have hfold (d : Duration) (n : Nat) (hd : d = .ofNanos n) :
      files.foldl (fun d f => d.add f.duration) d =
        .ofNanos (n + (files.map (·.duration.toNanos)).sum) := by
    induction files generalizing d n with
    | nil => exact hd
    | cons f files ih =>
        have hadd : d.add f.duration = .ofNanos (n + f.duration.toNanos) := by
          rw [hd, Duration.add, Duration.toNanos_ofNanos]
        rw [List.foldl_cons, ih _ _ hadd, List.map_cons, List.sum_cons, Nat.add_assoc]
  rw [aggregate, hfold {} 0 rfl, Nat.zero_add]

/-- The results for a list of files keep the reports, and the numbers found in one pass over them are
those that counting each file on its own gives. They are sums, also of the numbers of parts of the list,
and do not depend on its order; so is the time that the files took. -/
theorem aggregate_numbers (startedAt : Timestamp) (files : List FileReport) :
    let r := aggregate startedAt files
    r.files = files ∧
    r.numbers.total = files.length ∧
    r.checkedFiles = files.countP (·.status.isChecked) ∧
    r.skippedFiles = files.countP (·.status.isSkipped) ∧
    r.failedFiles = files.countP (·.status.isFailed) ∧
    r.checkedFiles + r.skippedFiles + r.failedFiles = files.length ∧
    (∀ s, r.count s = (files.map (·.count s)).sum) ∧
    r.count .error + r.count .warning + r.count .notice = r.entries.length ∧
    (r.hasErrors ↔ ∃ f ∈ files,
      (∃ entry ∈ f.entries, entry.severity = .error) ∨ ∃ message, f.status = .failed message) ∧
    (r.isClean ↔ ∀ f ∈ files, f.entries = []) ∧
    r.total = .ofNanos (files.map (·.duration.toNanos)).sum ∧
    (∀ more, (aggregate startedAt (files ++ more)).numbers =
      r.numbers + (aggregate startedAt more).numbers) ∧
    ∀ files', files.Perm files' →
      let r' := aggregate startedAt files'
      r'.numbers = r.numbers ∧ r'.total = r.total ∧ r'.hasErrors = r.hasErrors ∧
        r'.isClean = r.isClean := by
  intro r
  have hrecount : r.numbers = .recount files := r.numbers_eq_recount
  refine ⟨rfl, congrArg Numbers.total hrecount, congrArg Numbers.checked hrecount,
    r.skippedFiles_eq_countP, r.failedFiles_eq_countP, r.numbers_add_up.1, r.count_eq_sum,
    r.numbers_add_up.2, ?_, isClean_iff, total_aggregate startedAt files, fun more => ?_, ?_⟩
  · rw [hasErrors_iff]
    simp only [FileReport.hasErrors_iff, isFailed_iff]
    rfl
  · simp only [numbers_eq_recount, aggregate, r, Numbers.recount_append]
  · intro files' hperm r'
    have hnumbers : r'.numbers = r.numbers := by
      rw [numbers_eq_recount, numbers_eq_recount]
      exact (Numbers.recount_eq_of_perm hperm).symm
    refine ⟨hnumbers, ?_, ?_, ?_⟩
    · rw [total_aggregate, total_aggregate, (hperm.map _).sum_eq]
    · rw [hasErrors, hasErrors, hnumbers]
    · rw [isClean, isClean, hnumbers]

theorem aggregate_numbers_reordered :
    let startedAt : Timestamp := { seconds := 0 }
    let unguarded : FileReport := {
      path := "a.php", status := .checked, duration := ⟨1, 600000000⟩
      entries := [⟨"a.php", .error, "open", none, none⟩,
        ⟨"a.php", .notice, "encoded", some 2, some "x"⟩] }
    let absent : FileReport :=
      { path := "b.php", status := .failed "gone", duration := ⟨0, 700000000⟩ }
    let image : FileReport := { path := "c.png", status := .skipped "no rule" }
    [unguarded, absent, image].Perm [image, unguarded, absent] ∧
    (aggregate startedAt [image, unguarded, absent]).numbers = ⟨3, 1, 1, 1, 1, 0, 1⟩ ∧
    (aggregate startedAt [image, unguarded, absent]).total = ⟨2, 300000000⟩ := by
  intro startedAt unguarded absent image
  have hperm : [unguarded, absent, image].Perm [image, unguarded, absent] := by decide
  obtain ⟨-, -, -, -, -, -, -, -, -, -, -, -, hreordered⟩ :=
    aggregate_numbers startedAt [unguarded, absent, image]
  obtain ⟨hnumbers, htotal, -⟩ := hreordered _ hperm
  exact ⟨hperm, hnumbers.trans rfl, htotal.trans (by decide)⟩

end Results
end ExtensionLint
