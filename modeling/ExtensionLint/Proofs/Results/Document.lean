import ExtensionLint.Proofs.Report.Document
import ExtensionLint.Proofs.Results
import ExtensionLint.Rendering

/-!
# Documents of runs

The document of a run is read back as the value that it was written from (`Results.parse?_document`). What
a quiet document leaves out is told about that value alone: the entries whose severity is not that of an
error (`onlyErrors_toValue`).
-/

namespace ExtensionLint

open Data

/-! ## Numbers of 64 bits -/

def Duration.Has64Bits (d : Duration) : Prop := d.seconds < UInt64.size ∧ d.nanos < UInt64.size

/-- The numbers that the report on a file tells have 64 bits. -/
structure FileReport.Has64Bits (r : FileReport) : Prop where
  entries : ∀ e ∈ r.entries, e.IsNumbered64
  duration : r.duration.Has64Bits

/-- All numbers that a document of the run tells have 64 bits. -/
structure Results.Has64Bits (r : Results) : Prop where
  files : ∀ f ∈ r.files, f.Has64Bits
  total_files : r.files.length < UInt64.size
  total_entries : r.entries.length < UInt64.size
  discovery : r.discovery.Has64Bits
  total : r.total.Has64Bits

theorem FileReport.Has64Bits.errorsOnly {r : FileReport} (h : r.Has64Bits) :
    (Style.errorsOnly r).Has64Bits :=
  ⟨fun e he => h.entries e (List.mem_filter.1 he).1, h.duration⟩

instance (d : Duration) : Decidable d.Has64Bits := inferInstanceAs (Decidable (_ ∧ _))

instance (e : Entry) : Decidable e.IsNumbered64 :=
  inferInstanceAs (Decidable (∀ n ∈ e.line, n < UInt64.size))

instance (r : FileReport) : Decidable r.Has64Bits :=
  decidable_of_iff ((∀ e ∈ r.entries, e.IsNumbered64) ∧ r.duration.Has64Bits)
    ⟨fun ⟨hentries, hduration⟩ => ⟨hentries, hduration⟩, fun h => ⟨h.entries, h.duration⟩⟩

instance (r : Results) : Decidable r.Has64Bits :=
  decidable_of_iff ((∀ f ∈ r.files, f.Has64Bits) ∧ r.files.length < UInt64.size ∧
      r.entries.length < UInt64.size ∧ r.discovery.Has64Bits ∧ r.total.Has64Bits)
    ⟨fun ⟨hfiles, htotal, hentries, hdiscovery, hduration⟩ =>
      ⟨hfiles, htotal, hentries, hdiscovery, hduration⟩,
      fun h => ⟨h.files, h.total_files, h.total_entries, h.discovery, h.total⟩⟩

/-! ## What the document says -/

theorem Duration.Has64Bits.expressible_toValue {d : Duration} (h : d.Has64Bits) :
    Json.Expressible d.toValue := by
  refine .table fun field hfield => ?_
  simp only [List.mem_cons, List.not_mem_nil, or_false] at hfield
  rcases hfield with rfl | rfl
  · exact .natural h.1
  · exact .natural h.2

theorem FileStatus.expressible_toValue (status : FileStatus) : Json.Expressible status.toValue := by
  cases status with
  | checked => exact .table (by simpa using .text _)
  | skipped reason => exact .table (by simpa using ⟨.text _, .text _⟩)
  | failed message => exact .table (by simpa using ⟨.text _, .text _⟩)

theorem FileReport.Has64Bits.expressible_toValue {r : FileReport} (h : r.Has64Bits) :
    Json.Expressible r.toValue := by
  refine .table fun field hfield => ?_
  simp only [List.mem_cons, List.not_mem_nil, or_false] at hfield
  rcases hfield with rfl | rfl | rfl | rfl | rfl
  · exact .text _
  · exact r.status.expressible_toValue
  · refine .list fun v hv => ?_
    obtain ⟨id, -, rfl⟩ := List.mem_map.1 hv
    exact .text _
  · refine .list fun v hv => ?_
    obtain ⟨e, he, rfl⟩ := List.mem_map.1 hv
    exact Entry.expressible_toValue (h.entries e he)
  · exact h.duration.expressible_toValue

namespace Results

variable {r : Results}

/-- The numbers of a run are of 64 bits if all that it counts is: each file has one status, and each entry
one severity. -/
theorem Has64Bits.expressible_toValue (h : r.Has64Bits) {files : List FileReport}
    (hfiles : ∀ f ∈ files, f.Has64Bits) : Json.Expressible (r.toValue files) := by
  obtain ⟨hstatuses, hseverities⟩ := r.numbers_add_up
  -- none of the numbers is above that of the files or that of the entries
  have htotal : r.numbers.total < UInt64.size :=
    (congrArg Numbers.total r.numbers_eq_recount).trans_lt h.total_files
  have hfiles_lt := h.total_files
  have hentries := h.total_entries
  refine .table fun field hfield => ?_
  simp only [List.mem_cons, List.not_mem_nil, or_false] at hfield
  rcases hfield with rfl | rfl | rfl | rfl | rfl | rfl | rfl | rfl | rfl | rfl | rfl
  · exact .text _
  · exact .natural htotal
  · exact .natural (by omega)
  · exact .natural (by omega)
  · exact .natural (by omega)
  · exact .natural (by omega)
  · exact .natural (by omega)
  · exact .natural (by omega)
  · exact h.discovery.expressible_toValue
  · exact h.total.expressible_toValue
  · refine .list fun v hv => ?_
    obtain ⟨f, hf, rfl⟩ := List.mem_map.1 hv
    exact (hfiles f hf).expressible_toValue

/-- A document is read back as the outcome with the files that the style lists. -/
theorem parse?_document (h : r.Has64Bits) (s : Style) :
    Json.parse? (s.document r) =
      some (r.toValue (if s.verbosity = .quiet then r.files.map Style.errorsOnly else r.files)) := by
  refine Json.parse?_writeIndented (h.expressible_toValue fun f hf => ?_)
  split at hf
  · obtain ⟨g, hg, rfl⟩ := List.mem_map.1 hf
    exact (h.files g hg).errorsOnly
  · exact h.files f hf

end Results

/-! ## Documents of errors -/

namespace Data.Value

/-- The value with one field changed, whatever the others are. -/
def overField (name : String) (f : Value → Value) : Value → Value
  | table fields => table (fields.map fun (key, v) => (key, if key = name then f v else v))
  | v => v

def overItems (f : List Value → List Value) : Value → Value
  | list items => list (f items)
  | v => v

/-- Whether the value is a table that tells the severity of an error. -/
def tellsError : Value → Bool
  | table fields =>
    match under "severity" fields with
    | [text severity] => severity = Severity.error.label
    | _ => false
  | _ => false

end Data.Value

open Value in
/-- A document of a run without the entries that are no errors. Nothing else is changed. -/
def onlyErrors : Value → Value :=
  overField "file_results" (overItems (List.map
    (overField "entries" (overItems (List.filter tellsError)))))

theorem Entry.tellsError_toValue (e : Entry) : e.toValue.tellsError = decide (e.severity = .error) := by
  obtain ⟨file, severity, message, line, code⟩ := e
  cases severity <;> cases line <;> cases code <;> rfl

theorem FileReport.overField_toValue (r : FileReport) :
    r.toValue.overField "entries" (Value.overItems (List.filter Value.tellsError)) =
      (Style.errorsOnly r).toValue := by
  have hentries : (r.entries.map Entry.toValue).filter Value.tellsError =
      (r.entries.filter (·.severity = .error)).map Entry.toValue := by
    rw [List.filter_map]
    exact congrArg _ (List.filter_congr fun e _ => e.tellsError_toValue)
  simp [toValue, Value.overField, Value.overItems, hentries, Style.errorsOnly]

theorem onlyErrors_toValue (r : Results) (files : List FileReport) :
    onlyErrors (r.toValue files) = r.toValue (files.map Style.errorsOnly) := by
  simp [onlyErrors, Results.toValue, Value.overField, Value.overItems, Function.comp_def,
    ← FileReport.overField_toValue]

end ExtensionLint
