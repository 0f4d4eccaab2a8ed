import ExtensionLint.Manifest.Finding

/-!
# Buckets of findings

However findings are put into a bucket, it holds those of each severity in the order in which they came.
Flushed into a report they become one entry for each severity that has any, and as long as no message
breaks a line, the lines of such an entry are the messages (`flush_filled`).
-/

namespace ExtensionLint

/-- A way to put findings into a bucket. -/
inductive Addition
  | one (d : Diagnostic)
  | many (ds : List Diagnostic)

def Addition.findings : Addition → List Diagnostic
  | one d => [d]
  | many ds => ds

namespace Bucket

variable {b : Bucket} {file : String} {s : Severity} {entry : Entry} {ds : List Diagnostic}

/-! ## What a bucket holds -/

def take (b : Bucket) : Addition → Bucket
  | .one d => b.push d
  | .many ds => b.extend ds

def filled (additions : List Addition) : Bucket := additions.foldl take {}

theorem take_eq_extend (b : Bucket) (a : Addition) : b.take a = b.extend a.findings := by
  cases a <;> rfl

theorem filled_eq_extend (additions : List Addition) :
    filled additions = ({} : Bucket).extend (additions.flatMap Addition.findings) := by
  have hfold (b : Bucket) :
      additions.foldl take b = b.extend (additions.flatMap Addition.findings) := by
    induction additions generalizing b with
    | nil => rfl
    | cons a additions ih =>
        rw [List.foldl_cons, ih, take_eq_extend, List.flatMap_cons, extend_append]
  exact hfold {}

theorem ofSeverity_filled (additions : List Addition) (s : Severity) :
    (filled additions).ofSeverity s =
      (additions.flatMap Addition.findings).filter (·.severity = s) := by
  rw [filled_eq_extend, ofSeverity_extend]
  cases s <;> rfl

theorem size_push (b : Bucket) (d : Diagnostic) : (b.push d).size = b.size + 1 := by
  cases h : d.severity <;> simp [push, size, h] <;> omega

theorem size_extend (b : Bucket) (ds : List Diagnostic) : (b.extend ds).size = b.size + ds.length := by
  induction ds generalizing b with
  | nil => rfl
  | cons d ds ih =>
      have hrest : ((b.push d).extend ds).size = b.size + 1 + ds.length := by rw [ih, size_push]
      rw [List.length_cons, Nat.add_comm ds.length, ← Nat.add_assoc]
      exact hrest

theorem size_filled (additions : List Addition) :
    (filled additions).size = (additions.flatMap Addition.findings).length := by
  rw [filled_eq_extend, size_extend]
  exact Nat.zero_add _

/-! ## The entries of a bucket -/

/-- There is an entry for each severity that has findings, and for no other one. -/
theorem entries_eq_map (b : Bucket) (file : String) :
    b.entries file = ([.error, .warning, .notice].filter (b.ofSeverity · ≠ [])).map fun s =>
      ⟨file, s, joined (b.ofSeverity s), none, none⟩ := by
  rw [entries]
  induction [Severity.error, .warning, .notice] with
  | nil => rfl
  | cons s severities ih =>
      by_cases hs : b.ofSeverity s = []
      · have hnone : b.entryFor? file s = none := by simp [entryFor?, hs]
        rw [List.filterMap_cons_none hnone, ih, List.filter_cons_of_neg (by simp [hs])]
      · have hsome : b.entryFor? file s = some ⟨file, s, joined (b.ofSeverity s), none, none⟩ := by
          simp [entryFor?, hs]
        rw [List.filterMap_cons_some hsome, ih, List.filter_cons_of_pos (by simp [hs]), List.map_cons]

theorem map_severity_entries (b : Bucket) (file : String) : (b.entries file).map (·.severity) =
    [.error, .warning, .notice].filter (b.ofSeverity · ≠ []) := by
  rw [entries_eq_map, List.map_map]
  exact List.map_id _

theorem severities_entries (b : Bucket) (file : String) :
    ((b.entries file).map (·.severity)).Sublist [.error, .warning, .notice] := by
  rw [map_severity_entries]
  exact List.filter_sublist

theorem eq_of_mem_entries (h : entry ∈ b.entries file) : b.ofSeverity entry.severity ≠ [] ∧
    entry = ⟨file, entry.severity, joined (b.ofSeverity entry.severity), none, none⟩ := by
  rw [entries_eq_map] at h
  obtain ⟨s, hs, rfl⟩ := List.mem_map.mp h
  exact ⟨by simpa using (List.mem_filter.mp hs).2, rfl⟩

theorem file_of_mem_entries (h : entry ∈ b.entries file) : entry.file = file := by
  rw [(eq_of_mem_entries h).2]

theorem entries_flush (b : Bucket) (file : String) (r : Report) :
    (b.flush file r).entries = r.entries ++ b.entries file := by
  rw [flush, Report.foldl_add]

/-- Messages without line feeds are the lines of the text that joins them. -/
theorem splitOn_joined (hds : ds ≠ []) (h : ∀ d ∈ ds, '\n' ∉ d.message.toList) :
    (joined ds).toList.splitOn '\n' = ds.map (·.message.toList) := by
  rw [joined, String.toList_intercalate, List.map_map]
  refine List.splitOn_intercalate '\n' ?_ (by simpa using hds)
  simpa using h

/-! ## From findings to entries -/

/-- A bucket holds the findings that were put into it, by severity and in order. Flushed, it adds one
entry to a report for each severity of these findings, the gravest first. Each names the file and no
line, and its lines are the messages of its severity if none of the messages has a line feed. -/
theorem flush_filled (additions : List Addition) (file : String) (r : Report) :
    let ds := additions.flatMap Addition.findings
    let b := filled additions
    b.errors = ds.filter (·.severity = .error) ∧
    b.warnings = ds.filter (·.severity = .warning) ∧
    b.notices = ds.filter (·.severity = .notice) ∧
    b.size = ds.length ∧
    ∃ added, (b.flush file r).entries = r.entries ++ added ∧
      added.map (·.severity) =
        [.error, .warning, .notice].filter (fun s => ∃ d ∈ ds, d.severity = s) ∧
      (∀ entry ∈ added, entry.file = file ∧ entry.line = none ∧ entry.code = none) ∧
      ((∀ d ∈ ds, '\n' ∉ d.message.toList) → ∀ entry ∈ added,
        entry.message.toList.splitOn '\n' =
          (ds.filter (·.severity = entry.severity)).map (·.message.toList)) := by
  intro ds b
  have hb : ∀ s, b.ofSeverity s = ds.filter (·.severity = s) := ofSeverity_filled additions
  refine ⟨hb .error, hb .warning, hb .notice, size_filled additions, b.entries file,
    entries_flush b file r, ?_, ?_, ?_⟩
  · rw [map_severity_entries]
    refine List.filter_congr fun s _ => ?_
    rw [hb]
    simp
  · intro entry hentry
    rw [(eq_of_mem_entries hentry).2]
    exact ⟨rfl, rfl, rfl⟩
  · intro hds entry hentry
    obtain ⟨hne, heq⟩ := eq_of_mem_entries hentry
    rw [hb] at hne
    rw [heq, hb]
    exact splitOn_joined hne fun d hd => hds d (List.mem_filter.mp hd).1

theorem flush_filled_unknown_children :
    let unknown : String → Diagnostic := fun child => .notice (.unknownChild "extension" child)
    let unused : Diagnostic := .warning (.menuUnusedAttribute "view")
    let b := filled [.one (unknown "foo"), .many [unused, unknown "bar"]]
    let r : Report := ⟨[unused.entry "a.xml"]⟩
    (∀ d ∈ [unknown "foo", unused, unknown "bar"], '\n' ∉ d.message.toList) ∧
    ∃ added, (b.flush "m.xml" r).entries = r.entries ++ added ∧
      added.map (·.severity) = [.warning, .notice] ∧
      ∀ entry ∈ added, entry.severity = .notice → entry.message.toList.splitOn '\n' =
        ["<extension>: unknown child <foo>".toList, "<extension>: unknown child <bar>".toList] := by
  intro unknown unused b r
  have hlines : ∀ d ∈ [unknown "foo", unused, unknown "bar"], '\n' ∉ d.message.toList := by decide
  obtain ⟨-, -, -, -, added, hadded, hseverities, -, hmessages⟩ :=
    flush_filled [.one (unknown "foo"), .many [unused, unknown "bar"]] "m.xml" r
  refine ⟨hlines, added, hadded, hseverities.trans (by decide), fun entry hentry hnotice => ?_⟩
  rw [hmessages hlines entry hentry, hnotice]
  decide

end Bucket
end ExtensionLint
