import ExtensionLint.Proofs.Data.Json
import ExtensionLint.Report.Document

/-!
# Reports survive their documents

A report is written as a document and read back from it (`report_survives`). What an entry does not have
is left out of the document.
-/
namespace ExtensionLint

open Data

theorem natural?_natCast {n : Nat} (h : n < UInt64.size) : Value.natural? (.integer n) = some n := by
  rw [Value.natural?, if_pos ⟨Int.natCast_nonneg n, Int.ofNat_lt.2 h⟩, Int.toNat_natCast]

theorem optionalField?_of_read {α : Type} {read : Value → Option α} {v : Value} {a : α}
    (hnull : v ≠ .null) (h : read v = some a) : optionalField? read (some v) = some (some a) := by
  cases v with
  | null => exact absurd rfl hnull
  | _ => simp only [optionalField?, Value.orElse, Value.nullable?, h, Option.map_some]

/-! ## Entries -/

namespace Entry

/-- The line number has 64 bits, if there is one. -/
def IsNumbered64 (e : Entry) : Prop := ∀ n, e.line = some n → n < UInt64.size

/-- The names of the fields that an entry has. -/
def fieldNames (e : Entry) : List String :=
  ["file", "severity", "message"] ++ (e.line.map fun _ => "line").toList ++
    (e.code.map fun _ => "code").toList

variable {e : Entry}

theorem fields?_toValue (e : Entry) :
    e.toValue.fields? ["file", "severity", "message", "line", "code"] =
      some [some (.text e.file), some (.text e.severity.label), some (.text e.message),
        e.line.map fun n : Nat => .integer n, e.code.map .text] := by
  obtain ⟨file, severity, message, line, code⟩ := e
  cases line <;> cases code <;> simp [toValue, Value.fields?, Value.sole?, Value.under]

theorem optionalField?_line (h : e.IsNumbered64) :
    optionalField? Value.natural? (e.line.map fun n : Nat => .integer n) = some e.line := by
  cases hline : e.line with
  | none => rfl
  | some n => exact optionalField?_of_read nofun (natural?_natCast (h n hline))

theorem optionalField?_code (code : Option String) :
    optionalField? Value.text? (code.map .text) = some code := by
  cases code <;> rfl

theorem Severity.ofValue?_label (s : Severity) :
    Severity.ofValue? (.text s.label) = some s := by
  cases s <;> decide

theorem ofValue?_toValue (h : e.IsNumbered64) : ofValue? e.toValue = some e := by
  simp only [ofValue?, fields?_toValue, optionalField?_line h, optionalField?_code, Value.text?,
    Severity.ofValue?_label, Option.bind_eq_bind, Option.bind_some, Option.pure_def]

theorem expressible_toValue (h : e.IsNumbered64) : Json.Expressible e.toValue := by
  refine .table fun field hfield => ?_
  simp only [List.mem_append, List.mem_cons, List.not_mem_nil, or_false, Option.mem_toList,
    Option.map_eq_some_iff] at hfield
  rcases hfield with ((rfl | rfl | rfl) | ⟨n, hline, rfl⟩) | ⟨code, -, rfl⟩
  · exact .text _
  · exact .text _
  · exact .text _
  · exact .natural (h n hline)
  · exact .text _

theorem exists_toValue_eq (e : Entry) :
    ∃ fields, e.toValue = .table fields ∧ fields.map (·.1) = e.fieldNames := by
  refine ⟨_, rfl, ?_⟩
  obtain ⟨file, severity, message, line, code⟩ := e
  cases line <;> cases code <;> rfl

end Entry

theorem exists_tables (entries : List Entry) :
    ∃ tables : List (List (String × Value)), entries.map Entry.toValue = tables.map .table ∧
      tables.map (·.map (·.1)) = entries.map Entry.fieldNames := by
  induction entries with
  | nil => exact ⟨[], rfl, rfl⟩
  | cons e entries ih =>
      obtain ⟨fields, hfields, hnames⟩ := e.exists_toValue_eq
      obtain ⟨tables, hvalues, hrest⟩ := ih
      exact ⟨fields :: tables, by simp [hfields, hvalues], by simp [hnames, hrest]⟩

/-! ## Reports -/

namespace Report

variable {r : Report}

theorem ofValue?_toValue (h : ∀ e ∈ r.entries, e.IsNumbered64) : ofValue? r.toValue = some r := by
  have hentries : ∀ entries : List Entry, (∀ e ∈ entries, e.IsNumbered64) →
      (entries.map Entry.toValue).mapM Entry.ofValue? = some entries := by
    intro entries
    induction entries with
    | nil => exact fun _ => rfl
    | cons e entries ih =>
        intro h
        have hrest := ih fun e he => h e (List.mem_cons_of_mem _ he)
        simp [Entry.ofValue?_toValue (h e List.mem_cons_self), hrest]
  have hfields : r.toValue.fields? ["entries"] = some [some (.list (r.entries.map Entry.toValue))] := rfl
  simp only [ofValue?, hfields, Value.listOf?, hentries r.entries h, Option.bind_eq_bind,
    Option.bind_some, Option.pure_def]

theorem expressible_toValue (h : ∀ e ∈ r.entries, e.IsNumbered64) : Json.Expressible r.toValue := by
  refine .table (List.forall_mem_singleton.2 (.list fun v hv => ?_))
  obtain ⟨e, he, rfl⟩ := List.mem_map.1 hv
  exact Entry.expressible_toValue (h e he)

/-- A report is read back from its document, whichever way that is laid out. The table of an entry has the
fields that the entry has, and no others. -/
theorem report_survives (r : Report) (h : ∀ e ∈ r.entries, e.IsNumbered64) :
    parse? r.write = some r ∧
    parse? (Json.writeIndented r.toValue) = some r ∧
    ∃ tables : List (List (String × Value)),
      Json.parse? r.write = some (.table [("entries", .list (tables.map .table))]) ∧
      tables.map (·.map (·.1)) = r.entries.map Entry.fieldNames := by
  have hexpressible := expressible_toValue h
  refine ⟨?_, ?_, ?_⟩
  · rw [parse?, write, Json.parse?_write hexpressible, Option.bind_some, ofValue?_toValue h]
  · rw [parse?, Json.parse?_writeIndented hexpressible, Option.bind_some, ofValue?_toValue h]
  · obtain ⟨tables, hvalues, hnames⟩ := exists_tables r.entries
    exact ⟨tables, by rw [write, Json.parse?_write hexpressible, toValue, hvalues], hnames⟩

def strangeEntry : Entry where
  file := "a\\b\"c.php"
  severity := .warning
  message := "\x00\x08\n\x1f 𝄞"
  line := some (UInt64.size - 1)
  code := some ""

theorem report_survives_strange_texts :
    parse? (write ⟨[strangeEntry, { file := "", severity := .notice, message := "/" }]⟩) =
      some ⟨[strangeEntry, { file := "", severity := .notice, message := "/" }]⟩ := by
  refine (report_survives _ ?_).1
  rintro e he n hline
  simp only [List.mem_cons, List.not_mem_nil, or_false] at he
  rcases he with rfl | rfl <;> cases hline
  decide

end Report
end ExtensionLint
