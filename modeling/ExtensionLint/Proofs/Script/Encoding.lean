import Mathlib.Data.List.Forall2
import Mathlib.Data.List.TakeWhile
import ExtensionLint.Proofs.Script.Lexing
import ExtensionLint.Proofs.Text.Pattern
import ExtensionLint.Script.Encoding

/-!
# Calls of encoding functions, line by line

There is one entry for each line of code that mentions a watched name, in the order of the lines, and it
shows the line as it stands in the script (`check_by_line`).
-/

namespace ExtensionLint.Script.Encoding

open Text Utf8

variable {functions : List String} {path : String} {p : Pattern}

/-! ## What is searched for -/

theorem pattern?_eq_none (h : watched functions = []) : pattern? functions = none := by
  rw [pattern?, h]
  rfl

theorem pattern?_eq_some (h : watched functions ≠ []) :
    pattern? functions = some ⟨watched functions⟩ := by
  have hne : ¬ (watched functions).isEmpty = true := fun hempty => h (List.isEmpty_iff.mp hempty)
  rw [pattern?, if_neg hne, Pattern.read?_anyOf h]

/-- Blank names are not watched for. -/
theorem watched_eq_nil (h : ∀ f ∈ functions, ∀ c ∈ f.toList, isBlank c = true) :
    watched functions = [] := by
  rw [watched, List.filter_eq_nil_iff]
  intro name hname
  obtain ⟨f, hf, rfl⟩ := List.mem_map.mp hname
  have hstart : trimStart f.toList = [] := List.dropWhile_eq_nil_iff.mpr (h f hf)
  rw [trim, hstart]
  decide

/-! ## Entries and lines -/

/-- The entry for line `k` of a script. -/
structure Reports (functions : List String) (path : String) (source cleaned : List Char) (k : Nat)
    (entry : Entry) : Prop where
  file : entry.file = path
  severity : entry.severity = .warning
  line : entry.line = some (k + 1)
  code : ∃ text, (physicalLines source)[k]? = some text ∧ entry.code = some (String.ofList text)
  message : ∃ text found, (physicalLines cleaned)[k]? = some text ∧ found <:+: text ∧
    (∃ name ∈ watched functions, EqUpToCase found name) ∧
    entry.message = s!"Encoding function {String.ofList found} found"

/-- The entries go with the lines in which something is found. -/
theorem forall₂_entriesFrom (p : Pattern) (path : String) {cleaned lines : List (List Char)}
    (hlength : cleaned.length = lines.length) (index : Nat) :
    List.Forall₂ (fun k entry => ∃ i text line, k = index + i ∧ cleaned[i]? = some text ∧
        lines[i]? = some line ∧ entryFor? p path k text line = some entry)
      (cleaned.findIdxs (fun text => (p.find? text).isSome) index)
      (entriesFrom p path index cleaned lines) := by
  induction cleaned generalizing lines index with
  | nil => exact .nil
  | cons text cleaned ih =>
      cases lines with
      | nil => cases hlength
      | cons line lines =>
          have hrest := (ih (Nat.succ.inj hlength) (index + 1)).imp
            (S := fun k entry => ∃ i t l, k = index + i ∧ (text :: cleaned)[i]? = some t ∧
              (line :: lines)[i]? = some l ∧ entryFor? p path k t l = some entry)
            fun k entry ⟨i, t, l, hk, ht, hl, hentry⟩ => ⟨i + 1, t, l, by omega, ht, hl, hentry⟩
          rw [entriesFrom, List.findIdxs_cons]
          cases hfound : p.find? text with
          | none =>
              have hnone : entryFor? p path index text line = none := by
                rw [entryFor?, hfound]
                rfl
              rw [hnone]
              exact hrest
          | some found =>
              obtain ⟨entry, hentry⟩ : ∃ entry, entryFor? p path index text line = some entry := by
                rw [entryFor?, hfound]
                exact ⟨_, rfl⟩
              rw [hentry]
              exact .cons ⟨0, text, line, rfl, rfl, rfl, hentry⟩ hrest

theorem reports_of_entryFor? {source cleaned text line : List Char} {k : Nat} {entry : Entry}
    (hp : p.alternatives = watched functions) (htext : (physicalLines cleaned)[k]? = some text)
    (hline : (physicalLines source)[k]? = some line)
    (hentry : entryFor? p path k text line = some entry) :
    Reports functions path source cleaned k entry := by
  obtain ⟨found, hfound, rfl⟩ := Option.map_eq_some_iff.mp hentry
  obtain ⟨hinside, hname⟩ := Pattern.find?_eq_some hfound
  rw [hp] at hname
  exact ⟨rfl, rfl, rfl, ⟨line, hline, rfl⟩, ⟨text, found, htext, hinside, hname, rfl⟩⟩

/-- Where all names are blank, there are no entries. Otherwise a script that can be cleaned has one
entry for each line that mentions a watched name once comments and markup are gone, in the order of the
lines: it has the number of the line, counted from one, and shows the line of the script itself; its
message shows the part of the cleaned line that equals the name up to case. -/
theorem check_by_line (functions : List String) (path : String) (source : List Char) :
    ((∀ f ∈ functions, ∀ c ∈ f.toList, isBlank c = true) → check functions path source = .ok []) ∧
    ∀ cleaned, clean .all source = .ok cleaned → ∃ entries ks,
      check functions path source = .ok entries ∧ ks.Pairwise (· < ·) ∧
      (∀ k, k ∈ ks ↔ ∃ text, (physicalLines cleaned)[k]? = some text ∧
        ∃ name ∈ watched functions, Mentions text name) ∧
      List.Forall₂ (Reports functions path source cleaned) ks entries := by
  have hunwatched (h : watched functions = []) : check functions path source = .ok [] := by
    rw [check, pattern?_eq_none h]
  refine ⟨fun hblank => hunwatched (watched_eq_nil hblank), fun cleaned hclean => ?_⟩
  by_cases hnames : watched functions = []
  · refine ⟨[], [], hunwatched hnames, .nil, fun k => ?_, .nil⟩
    simp [hnames]
  · have hlength : (physicalLines cleaned).length = (physicalLines source).length := by
      obtain ⟨_, _, _, _, _, _, hlength, _⟩ := clean_keeps_places hclean
      exact hlength
    let p : Pattern := ⟨watched functions⟩
    have hcheck : check functions path source =
        .ok (entriesFrom p path 0 (physicalLines cleaned) (physicalLines source)) := by
      rw [check, pattern?_eq_some hnames]
      exact congrArg (Except.map _) hclean
    refine ⟨_, (physicalLines cleaned).findIdxs fun text => (p.find? text).isSome, hcheck,
      List.pairwise_findIdxs, fun k => ?_, ?_⟩
    · rw [List.mem_findIdxs_iff_exists_getElem_pos]
      simp only [Pattern.find?_isSome_iff, List.getElem?_eq_some_iff]
      constructor
      · rintro ⟨hk, hname⟩
        exact ⟨_, ⟨hk, rfl⟩, hname⟩
      · rintro ⟨text, ⟨hk, rfl⟩, hname⟩
        exact ⟨hk, hname⟩
    · refine (forall₂_entriesFrom p path hlength 0).imp ?_
      rintro k entry ⟨i, text, line, rfl, htext, hline, hentry⟩
      rw [Nat.zero_add] at hentry ⊢
      exact reports_of_entryFor? rfl htext hline hentry

/-- Three kinds of line ends, a comment with a character of two bytes, and a name that holds an
operator. -/
theorem check_by_line_literal_name :
    let functions := [" a.b ", " ", "eval"]
    let source := "<?php\r\n// é eval\rEVAL(axb());\nA.B();".toList
    let cleaned := "<?php\r\n          \rEVAL(axb());\nA.B();".toList
    clean .all source = .ok cleaned ∧ ∃ entries ks,
      check functions "x.php" source = .ok entries ∧ ks.Pairwise (· < ·) ∧
      (∀ k, k ∈ ks ↔ ∃ text, (physicalLines cleaned)[k]? = some text ∧
        ∃ name ∈ watched functions, Mentions text name) ∧
      List.Forall₂ (Reports functions "x.php" source cleaned) ks entries := by
  intro functions source cleaned
  let pieces : List Piece := .openTag (mark "<?php") :: ((mark "\r\n").map Piece.plain ++
    (.lineComment (mark "//") (encode " é eval".toList) ::
      ((mark "\rEVAL(axb());\nA.B();").map Piece.plain ++ [])))
  have hcomment : ∀ b ∈ encode " é eval".toList, isLineEnd b = false :=
    List.all_iff_forall_prop.mp (by decide)
  have hsequence : Sequence .markup pieces :=
    .cons rfl (.inl rfl) trivial <|
    sequence_plain _ (List.all_iff_forall_prop.mp (by decide)) <|
    .cons rfl ⟨.inl rfl, hcomment, by decide +kernel⟩ rfl <|
    sequence_plain _ (List.all_iff_forall_prop.mp (by decide)) (.nil _)
  have hsource : encode source = pieces.flatMap Piece.bytes := by decide
  have hwritten : encode cleaned = pieces.flatMap (Piece.written .all) := by decide
  have hclean : clean .all source = .ok cleaned := by
    refine clean_eq_ok_iff.mpr ⟨_, ?_, decodeLossy_encode cleaned⟩
    rw [hsource, hwritten]
    exact scan_sequence hsequence .all
  exact ⟨hclean, (check_by_line functions "x.php" source).2 cleaned hclean⟩

end ExtensionLint.Script.Encoding
