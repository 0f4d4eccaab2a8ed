import Mathlib.Data.List.TakeWhile
import ExtensionLint.Proofs.Script.Declarations
import ExtensionLint.Proofs.Script.Lexing
import ExtensionLint.Proofs.Script.LineByLine
import ExtensionLint.Proofs.Text.PlainLines
import ExtensionLint.Script.Guard

/-!
# Guards and code, line by line

The check for a guard goes by how lines begin. A line with nothing but blanks or a tag holds no code
once the comments are gone (`codeless_of_isBareLine`). What the check takes for a comment may hold code
all the same, and it does not see what stands before a guard; where neither misleads it, a script that
passes is guarded before any code, or has none, or only declares (`Guard.check_eq_nil_cases`).
-/

namespace ExtensionLint.Script

open Text Utf8
open Computability

namespace Grammar

def tag : Language Char := word "<?php" + word "?>"

/-- Text that holds no code. -/
def codeless : Language Char := (blanks + tag)∗

/-- Characters of a class and blanks, with a blank in front. -/
def spaced (member : Char → Bool) : Language Char :=
  {s | s.head?.any isBlank = true ∧ ∀ c ∈ s, (member c || isBlank c) = true}

/-- A statement that may stand before a guard. -/
def leadingStatement : Language Char :=
  word "namespace" * spaced isPathChar * word ";" +
    word "use" * spaced (fun c => isPathChar c || ",{}".toList.contains c) * word ";" +
    word "declare" * blanks * word "(" * run (fun c => !"();".toList.contains c) * word ")" * blanks *
      word ";"

/-- Text that may stand before a guard. -/
def preamble : Language Char := (blanks + tag + leadingStatement)∗

end Grammar

open Script.Grammar

/-! ## Text without code -/

theorem append_mem_star {l : Language Char} {a b : List Char} (ha : a ∈ l∗) (hb : b ∈ l∗) :
    a ++ b ∈ l∗ := by
  have hmem := Language.append_mem_mul ha hb
  rwa [kstar_mul_kstar] at hmem

theorem codeless_of_blanks {a : List Char} (h : a ∈ blanks) : a ∈ codeless :=
  (le_kstar : blanks + tag ≤ codeless) (.inl h)

theorem codeless_of_tag {a : List Char} (h : a ∈ tag) : a ∈ codeless :=
  (le_kstar : blanks + tag ≤ codeless) (.inr h)

theorem preamble_of_codeless {a : List Char} (h : a ∈ codeless) : a ∈ preamble := by
  have hle : codeless ≤ preamble := kstar_mono le_self_add
  exact hle h

theorem over_codeless : Over (fun c => isBlank c || "<?ph>".toList.contains c) codeless := by
  have hblanks : Over (fun c => isBlank c || "<?ph>".toList.contains c) blanks :=
    fun a ha c hc => (Bool.or_eq_true _ _).mpr (.inl (ha c hc))
  exact (hblanks.add (.add (.word rfl) (.word rfl))).star

theorem exists_of_trimEnd (s : List Char) : ∃ back ∈ blanks, s = trimEnd s ++ back := by
  refine ⟨(s.reverse.takeWhile isBlank).reverse, fun c hc => ?_, ?_⟩
  · exact List.all_eq_true.mp List.all_takeWhile c (List.mem_reverse.mp hc)
  · rw [trimEnd, ← List.reverse_append, List.takeWhile_append_dropWhile, List.reverse_reverse]

theorem exists_of_isBareLine {line : List Char} (h : Guard.isBareLine line = true) :
    ∃ front text back, line = front ++ (text ++ back) ∧ front ∈ blanks ∧ back ∈ blanks ∧
      (text = [] ∨ text ∈ tag) := by
  obtain ⟨front, hfront, hline⟩ := skips_blanks line
  obtain ⟨back, hback, htext⟩ := exists_of_trimEnd (trimStart line)
  refine ⟨front, trim line, back, by rw [trim, ← htext, ← hline], hfront, hback, ?_⟩
  simp only [Guard.isBareLine, Bool.or_eq_true, List.isEmpty_iff, beq_iff_eq] at h
  rcases h with (h | h) | h
  · exact .inl h
  · exact .inr (.inl h)
  · exact .inr (.inr h)

theorem codeless_of_isBareLine {line : List Char} (h : Guard.isBareLine line = true) :
    line ∈ codeless := by
  obtain ⟨front, text, back, rfl, hfront, hback, htext⟩ := exists_of_isBareLine h
  refine append_mem_star (codeless_of_blanks hfront) (append_mem_star ?_ (codeless_of_blanks hback))
  rcases htext with rfl | htext
  · exact Language.nil_mem_kstar _
  · exact codeless_of_tag htext

/-- The characters that begin or end comments. -/
def commentSigns : List Char := ['/', '#', '*']

theorem not_mem_commentSigns_of_isBlank {c : Char} (h : isBlank c = true) : c ∉ commentSigns := by
  intro hc
  have hall : ∀ x ∈ commentSigns, isBlank x = false := List.all_iff_forall_prop.mp (by decide)
  rw [hall c hc] at h
  cases h

theorem not_mem_commentSigns_of_isBareLine {line : List Char} (h : Guard.isBareLine line = true) :
    ∀ c ∈ line, c ∉ commentSigns := by
  obtain ⟨front, text, back, rfl, hfront, hback, htext⟩ := exists_of_isBareLine h
  have hsigns : ∀ c ∈ text, c ∉ commentSigns := by
    rcases htext with rfl | rfl | rfl <;> exact List.all_iff_forall_prop.mp (by decide)
  refine List.forall_mem_append.mpr ⟨fun c hc => not_mem_commentSigns_of_isBlank (hfront c hc),
    List.forall_mem_append.mpr ⟨hsigns, fun c hc => not_mem_commentSigns_of_isBlank (hback c hc)⟩⟩

theorem not_mem_mark_of_encode {s : List Char} (h : ∀ c ∈ s, c ∉ commentSigns) :
    ∀ b ∈ encode s, b ∉ mark "/#*" := by
  intro b hb hmark
  obtain ⟨c, hc, hbc⟩ := List.mem_flatMap.mp hb
  have hall : ∀ x ∈ mark "/#*", Ascii x ∧ Char.ofNat x.toNat ∈ commentSigns :=
    List.all_iff_forall_prop.mp (by decide)
  rw [encodeChar_eq_singleton (hall b hmark).1 hbc] at hc
  exact h _ hc (hall b hmark).2

/-- What is hidden leaves blanks. -/
theorem blanks_of_encode_eq_map {s : List Char} {bytes : List UInt8}
    (h : encode s = bytes.map (shown true)) : s ∈ blanks := by
  intro c hc
  obtain ⟨b, front, hb⟩ := List.exists_cons_of_ne_nil (encodeChar_ne_nil c)
  have hbc : b ∈ String.utf8EncodeChar c := hb ▸ List.mem_cons_self
  have hmem : b ∈ bytes.map (shown true) := h ▸ List.mem_flatMap.mpr ⟨c, hc, hbc⟩
  obtain ⟨x, _, rfl⟩ := List.mem_map.mp hmem
  rw [encodeChar_eq_singleton (ascii_shown_true x) hbc]
  cases hend : isLineEnd x with
  | true =>
      have hx : shown true x = x := by rw [shown, hend]; rfl
      rw [hx]
      simp only [isLineEnd, Bool.or_eq_true, beq_iff_eq] at hend
      rcases hend with rfl | rfl <;> rfl
  | false =>
      have hx : shown true x = byte ' ' := by rw [shown, hend]; rfl
      rw [hx]
      rfl

/-! ## Rows -/

namespace Guard

/-- The lines of a script, each with what cleaning leaves of it. -/
def rows (source cleaned : List Char) : List (List Char × List Char) :=
  (plainLines source).zip (plainLines cleaned)

theorem blanks_closedLine {s : List Char} (h : s ∈ blanks) : closedLine s.reverse ∈ blanks := by
  rcases eq_or_eq_of_closedLine s with hs | hs <;> rw [hs] at h
  · exact h
  · exact fun c hc => h c (List.mem_append_left _ hc)

/-- A text that is all comment, or has none, is hidden or stays. -/
theorem eq_or_blanks_of_layers {s cleaned : List Char} {l : List (UInt8 × Layer)} {state : State}
    (hsource : encode s = l.map Prod.fst)
    (hcleaned : encode cleaned = l.map Blanking.commentsOnly.write)
    (hlayers : ∀ x ∈ l, x.2 = .comment ↔ state = .blockComment) :
    cleaned = s ∨ cleaned ∈ blanks := by
  by_cases hstate : state = .blockComment
  · right
    have hhidden : l.map Blanking.commentsOnly.write = (l.map Prod.fst).map (shown true) := by
      rw [List.map_map]
      refine List.map_congr_left fun x hx => ?_
      rw [Blanking.write, (hlayers x hx).mpr hstate]
      rfl
    exact blanks_of_encode_eq_map (hcleaned.trans hhidden)
  · left
    have hkept : l.map Blanking.commentsOnly.write = l.map Prod.fst := by
      refine List.map_congr_left fun x hx => ?_
      have hhides : Blanking.commentsOnly.hides x.2 = false := by
        cases hlayer : x.2 with
        | comment => exact absurd ((hlayers x hx).mp hlayer) hstate
        | _ => rfl
      rw [Blanking.write, hhides]
      rfl
    rw [← decodeLossy_encode cleaned, hcleaned, hkept, ← hsource, decodeLossy_encode]

/-- Cleaning makes no lines. -/
theorem lf_not_mem_map_write {o : Blanking} {s : List Char} {l : List (UInt8 × Layer)}
    (hs : '\n' ∉ s) (hsource : encode s = l.map Prod.fst) : byte '\n' ∉ l.map o.write := by
  intro h
  obtain ⟨x, hx, hwrite⟩ := List.mem_map.mp h
  rcases write_eq o x with hkept | ⟨_, hspace⟩
  · have hmem : byte '\n' ∈ encode s := by
      rw [hsource]
      exact List.mem_map.mpr ⟨x, hx, hkept.symm.trans hwrite⟩
    exact hs (lf_mem_encode_iff.mp hmem)
  · rw [hspace] at hwrite
    cases hwrite

theorem not_mem_commentSigns_of_closedLine {s : List Char}
    (h : isBareLine (closedLine s.reverse) = true) : ∀ c ∈ s, c ∉ commentSigns := by
  have hline := not_mem_commentSigns_of_isBareLine h
  rcases eq_or_eq_of_closedLine s with hs | hs <;> rw [hs]
  · exact hline
  · exact List.forall_mem_append.mpr ⟨hline, List.forall_mem_singleton.mpr (by decide)⟩

theorem eq_nil_of_encode {s : List Char} (h : encode s = []) : s = [] := by
  rw [← decodeLossy_encode s, h]
  rfl

/-- Cleaning keeps the lines, and what it leaves of a bare one holds no code. -/
theorem rows_of_reads (source : List Char) {cleaned : List Char} {l : List (UInt8 × Layer)}
    {p q : Place} (hreads : Reads p l q) (hproper : p.state.Proper) (hline : p.state ≠ .lineComment)
    (hsource : encode source = l.map Prod.fst)
    (hcleaned : encode cleaned = l.map Blanking.commentsOnly.write) :
    (plainLines cleaned).length = (plainLines source).length ∧
      ∀ row ∈ rows source cleaned, isBareLine row.1 = true → row.2 ∈ codeless := by
  induction source using lines_induction generalizing cleaned l p with
  | last s hs =>
      have hlf : '\n' ∉ cleaned := by
        rw [← lf_mem_encode_iff, hcleaned]
        exact lf_not_mem_map_write hs hsource
      by_cases hempty : s = []
      · subst hempty
        obtain rfl := List.map_eq_nil_iff.mp hsource.symm
        rw [eq_nil_of_encode hcleaned]
        exact ⟨rfl, List.forall_mem_nil _⟩
      · have hne : cleaned ≠ [] := by
          rintro rfl
          obtain rfl := List.map_eq_nil_iff.mp hcleaned.symm
          exact hempty (eq_nil_of_encode hsource)
        rw [rows, plainLines_of_not_mem hs hempty, plainLines_of_not_mem hlf hne]
        refine ⟨rfl, List.forall_mem_singleton.mpr fun hbare => ?_⟩
        have hmarks : ∀ x ∈ l, x.1 ∉ mark "/#*" := fun x hx =>
          not_mem_mark_of_encode (not_mem_commentSigns_of_isBareLine hbare) x.1
            (hsource ▸ List.mem_map_of_mem hx)
        rcases eq_or_blanks_of_layers hsource hcleaned (hreads.comment_throughout hline hmarks) with
          rfl | hblanks
        · exact codeless_of_isBareLine hbare
        · exact codeless_of_blanks hblanks
  | line s t hs ih =>
      have hbytes : encode (s ++ '\n' :: t) = encode s ++ byte '\n' :: encode t := by
        rw [encode_append]
        rfl
      obtain ⟨front, behind, rfl, hfront, hbehind⟩ :=
        List.map_eq_append_iff.mp (hsource.symm.trans hbytes)
      obtain ⟨x, back, rfl, hx, hback⟩ := List.map_eq_cons_iff.mp hbehind
      have hwrite : Blanking.commentsOnly.write x = byte '\n' := by
        rcases write_eq .commentsOnly x with hkept | ⟨hend, _⟩
        · exact hkept.trans hx
        · rw [hx] at hend
          cases hend
      rw [List.map_append, List.map_cons, hwrite] at hcleaned
      obtain ⟨first, rest, rfl, hfirst, hfirstBytes, hrestBytes⟩ :=
        exists_of_encode_eq_append hcleaned (lf_not_mem_map_write hs hfront.symm)
      obtain ⟨r, hhead, htail, hr, hrline⟩ := hreads.exists_at_lf hproper hx
      obtain ⟨hlength, hrows⟩ := ih htail hr hrline hback.symm hrestBytes
      rw [rows, plainLines_append hs, plainLines_append hfirst, List.zip_cons_cons]
      refine ⟨by rw [List.length_cons, List.length_cons, hlength], ?_⟩
      refine List.forall_mem_cons.mpr ⟨fun hbare => ?_, hrows⟩
      have hmarks : ∀ y ∈ front ++ [x], y.1 ∉ mark "/#*" := by
        refine List.forall_mem_append.mpr ⟨fun y hy => ?_, List.forall_mem_singleton.mpr ?_⟩
        · exact not_mem_mark_of_encode (not_mem_commentSigns_of_closedLine hbare) y.1
            (hfront ▸ List.mem_map_of_mem hy)
        · rw [hx]
          decide
      have hlayers := hhead.comment_throughout hline hmarks
      rcases eq_or_blanks_of_layers hfront.symm hfirstBytes
        fun y hy => hlayers y (List.mem_append_left _ hy) with rfl | hblanks
      · exact codeless_of_isBareLine hbare
      · exact codeless_of_blanks (blanks_closedLine hblanks)

theorem codeless_of_lines (s : List Char) (h : ∀ line ∈ plainLines s, line ∈ codeless) :
    s ∈ codeless := by
  induction s using lines_induction with
  | last s hs =>
      by_cases hempty : s = []
      · rw [hempty]
        exact Language.nil_mem_kstar _
      · rw [plainLines_of_not_mem hs hempty] at h
        exact h s (List.mem_singleton_self s)
  | line s t hs ih =>
      rw [plainLines_append hs] at h
      obtain ⟨hline, hlines⟩ := List.forall_mem_cons.mp h
      have hblank (c : Char) (hc : isBlank c = true) : [c] ∈ codeless :=
        codeless_of_blanks (List.forall_mem_singleton.mpr hc)
      have hs : s ∈ codeless := by
        rcases eq_or_eq_of_closedLine s with hsame | hcr
        · rw [hsame]
          exact hline
        · rw [hcr]
          exact append_mem_star hline (hblank '\r' rfl)
      exact append_mem_star hs (append_mem_star (hblank '\n' rfl) (ih hlines))

/-! ## Scripts that pass -/

theorem isGuarded_eq_true_iff {constants : List String} {source : List Char} :
    isGuarded constants source = true ↔
      (∃ line ∈ plainLines source, isBareLine line = false ∧
        isGuardLine constants line = true) ∨
      ∀ line ∈ plainLines source, isBareLine line = false → isCommentLine line = true := by
  simp only [isGuarded, Bool.or_eq_true, List.any_eq_true, List.all_eq_true, List.mem_filter,
    Bool.not_eq_true', and_imp, and_assoc]

theorem check_eq_ok_nil_iff {constants : List String} {path : String} {source : List Char} :
    check constants path source = .ok [] ↔
      isGuarded constants source = true ∨ isDeclarationOnly source = .ok true := by
  rw [check]
  cases hguarded : isGuarded constants source with
  | true => exact ⟨fun _ => .inl rfl, fun _ => rfl⟩
  | false =>
      cases hdeclares : isDeclarationOnly source with
      | error fault => exact ⟨nofun, nofun⟩
      | ok exempt =>
          cases exempt with
          | true => exact ⟨fun _ => .inr rfl, fun _ => rfl⟩
          | false => exact ⟨nofun, nofun⟩

/-- The lines of a script show its code: without a guard line, what looks like a comment is one; else no
line in front of the first guard line has any code but namespaces, imports and directives. The check never
looks at what stands before a guard, so `opening` has to be asked of a script: no verdict implies it. -/
structure Candid (constants : List String) (lines : List (List Char × List Char)) : Prop where
  comment : (¬ ∃ row ∈ lines, isGuardLine constants row.1 = true) →
    ∀ row ∈ lines, isCommentLine row.1 = true → row.2 ∈ codeless
  opening : (∃ row ∈ lines, isGuardLine constants row.1 = true) →
    ∀ row ∈ lines.takeWhile fun row => !isGuardLine constants row.1,
      isBareLine row.1 = false → row.2 ∈ preamble

theorem exists_row {source cleaned line : List Char}
    (hlength : (plainLines cleaned).length = (plainLines source).length)
    (h : line ∈ plainLines source) : ∃ row ∈ rows source cleaned, row.1 = line := by
  rw [← List.map_fst_zip (Nat.le_of_eq hlength.symm)] at h
  exact List.mem_map.mp h

theorem exists_row_cleaned {source cleaned line : List Char}
    (hlength : (plainLines cleaned).length = (plainLines source).length)
    (h : line ∈ plainLines cleaned) : ∃ row ∈ rows source cleaned, row.2 = line := by
  rw [← List.map_snd_zip (Nat.le_of_eq hlength)] at h
  exact List.mem_map.mp h

/-- What stands before the first guard line, the line and what follows. -/
theorem exists_first_guard {constants : List String} {lines : List (List Char × List Char)}
    (h : ∃ row ∈ lines, isGuardLine constants row.1 = true) :
    ∃ row after, lines = (lines.takeWhile fun row => !isGuardLine constants row.1) ++ row :: after ∧
      isGuardLine constants row.1 = true := by
  obtain ⟨guard, hmem, hguard⟩ := h
  have hfirst := List.head?_dropWhile_not (fun row => !isGuardLine constants row.1) lines
  cases hdrop : lines.dropWhile fun row => !isGuardLine constants row.1 with
  | nil =>
      have hnone := List.dropWhile_eq_nil_iff.mp hdrop guard hmem
      rw [hguard] at hnone
      cases hnone
  | cons row after =>
      rw [hdrop] at hfirst
      exact ⟨row, after, by rw [← hdrop, List.takeWhile_append_dropWhile], by simpa using hfirst⟩

theorem preamble_of_rows {before : List (List Char × List Char)} (h : ∀ row ∈ before, row.2 ∈ preamble) :
    before.flatMap (fun row => row.2 ++ ['\n']) ∈ preamble := by
  have hbreak : ['\n'] ∈ preamble :=
    preamble_of_codeless (codeless_of_blanks (List.forall_mem_singleton.mpr rfl))
  induction before with
  | nil => exact Language.nil_mem_kstar _
  | cons row before ih =>
      obtain ⟨hrow, hbefore⟩ := List.forall_mem_cons.mp h
      exact append_mem_star (append_mem_star hrow hbreak) (ih hbefore)

/-- A script that passes, and whose lines show its code, only declares, has no code, or has a guard line
with nothing before it but comments, tags, namespaces, imports and directives. -/
theorem check_eq_nil_cases {constants : List String} {path : String} {source cleaned : List Char}
    (hclean : clean .commentsOnly source = .ok cleaned)
    (hcheck : check constants path source = .ok [])
    (hcandid : Candid constants (rows source cleaned)) :
    isDeclarationOnly source = .ok true ∨ cleaned ∈ codeless ∨
      ∃ before row after, rows source cleaned = before ++ row :: after ∧
        isGuardLine constants row.1 = true ∧
        before.flatMap (fun row => row.2 ++ ['\n']) ∈ preamble := by
  obtain ⟨written, hscan, rfl⟩ := clean_eq_ok_iff.mp hclean
  have hencode := encode_decodeLossy_scan hscan
  obtain ⟨l, q, hreads, hend, rfl⟩ := scan_eq_ok_iff.mp hscan
  have hsource : encode source = l.map Prod.fst := by
    have hahead := hreads.ahead_eq
    rwa [hend, List.append_nil] at hahead
  obtain ⟨hlength, hbare⟩ := rows_of_reads source hreads trivial nofun hsource hencode
  generalize decodeLossy (l.map Blanking.commentsOnly.write) = cleaned at hcandid hlength hbare ⊢
  rcases check_eq_ok_nil_iff.mp hcheck with hguarded | hdeclares
  · right
    by_cases hguard : ∃ row ∈ rows source cleaned, isGuardLine constants row.1 = true
    · right
      obtain ⟨row, after, hrows, hrow⟩ := exists_first_guard hguard
      refine ⟨_, row, after, hrows, hrow, preamble_of_rows fun r hr => ?_⟩
      have hrmem := (List.takeWhile_sublist _).subset hr
      cases hrbare : isBareLine r.1 with
      | true => exact preamble_of_codeless (hbare r hrmem hrbare)
      | false => exact hcandid.opening hguard r hr hrbare
    · left
      have hcomments : ∀ line ∈ plainLines source, isBareLine line = false →
          isCommentLine line = true := by
        rcases isGuarded_eq_true_iff.mp hguarded with ⟨_, hline, _, hfound⟩ | hcomments
        · obtain ⟨row, hmem, rfl⟩ := exists_row hlength hline
          exact absurd ⟨row, hmem, hfound⟩ hguard
        · exact hcomments
      refine codeless_of_lines cleaned fun line hline => ?_
      obtain ⟨row, hrow, rfl⟩ := exists_row_cleaned hlength hline
      cases hrowBare : isBareLine row.1 with
      | true => exact hbare row hrow hrowBare
      | false =>
          have hmem : row.1 ∈ plainLines source := (List.of_mem_zip hrow).1
          exact hcandid.comment hguard row hrow (hcomments row.1 hmem hrowBare)
  · exact .inl hdeclares

theorem check_eq_nil_cases_below_comment :
    clean .commentsOnly "<?php\n/* note */\ndefined('_JEXEC') or die;".toList =
        .ok "<?php\n          \ndefined('_JEXEC') or die;".toList ∧
      check ["_JEXEC"] "view.php" "<?php\n/* note */\ndefined('_JEXEC') or die;".toList = .ok [] ∧
      Candid ["_JEXEC"] (rows "<?php\n/* note */\ndefined('_JEXEC') or die;".toList
        "<?php\n          \ndefined('_JEXEC') or die;".toList) ∧
      (isDeclarationOnly "<?php\n/* note */\ndefined('_JEXEC') or die;".toList = .ok true ∨
        "<?php\n          \ndefined('_JEXEC') or die;".toList ∈ codeless ∨
        ∃ before row after,
          rows "<?php\n/* note */\ndefined('_JEXEC') or die;".toList
            "<?php\n          \ndefined('_JEXEC') or die;".toList = before ++ row :: after ∧
          isGuardLine ["_JEXEC"] row.1 = true ∧
          before.flatMap (fun row => row.2 ++ ['\n']) ∈ preamble) := by
  have hsequence : Sequence .markup (.openTag (mark "<?php") :: .plain (byte '\n') ::
      .blockComment (mark " note ") :: ((mark "\ndefined(").map Piece.plain ++
      (.literal (byte '\'') ((mark "_JEXEC").map .plain) :: ((mark ") or die;").map Piece.plain ++ [])))) :=
    .cons rfl (.inl rfl) trivial <|
    .cons rfl ⟨by decide, by decide⟩ trivial <|
    .cons rfl (show ¬ mark "*/" <:+: mark " note " by decide) trivial <|
    sequence_plain _ (List.all_iff_forall_prop.mp (by decide)) <| .cons rfl ⟨rfl, by decide⟩ trivial <|
    sequence_plain _ (List.all_iff_forall_prop.mp (by decide)) (.nil _)
  have hclean : clean .commentsOnly "<?php\n/* note */\ndefined('_JEXEC') or die;".toList =
      .ok "<?php\n          \ndefined('_JEXEC') or die;".toList :=
    clean_eq_ok_iff.mpr ⟨_, scan_sequence hsequence .commentsOnly,
      decodeLossy_encode "<?php\n          \ndefined('_JEXEC') or die;".toList⟩
  have hcheck : check ["_JEXEC"] "view.php"
      "<?php\n/* note */\ndefined('_JEXEC') or die;".toList = .ok [] :=
    check_eq_ok_nil_iff.mpr (.inl (by decide))
  have hrows : rows "<?php\n/* note */\ndefined('_JEXEC') or die;".toList
      "<?php\n          \ndefined('_JEXEC') or die;".toList =
      [("<?php".toList, "<?php".toList), ("/* note */".toList, "          ".toList),
        ("defined('_JEXEC') or die;".toList, "defined('_JEXEC') or die;".toList)] := by decide
  have hcandid : Candid ["_JEXEC"] (rows "<?php\n/* note */\ndefined('_JEXEC') or die;".toList
      "<?php\n          \ndefined('_JEXEC') or die;".toList) := by
    have hspaces : "          ".toList ∈ codeless :=
      codeless_of_blanks (List.all_eq_true.mp rfl)
    have hguard : isGuardLine ["_JEXEC"] "defined('_JEXEC') or die;".toList = true := by decide
    rw [hrows]
    refine ⟨fun hnone => absurd ⟨_, .tail _ (.tail _ (.head _)), hguard⟩ hnone, fun _ => ?_⟩
    exact List.forall_mem_cons.mpr ⟨nofun, List.forall_mem_singleton.mpr fun _ =>
      preamble_of_codeless hspaces⟩
  exact ⟨hclean, hcheck, hcandid, check_eq_nil_cases hclean hcheck hcandid⟩

/-- Code behind a comment. The line begins like a comment, so the script passes for one without code. -/
theorem check_passes_code_behind_comment :
    check defaultConstants "view.php" "<?php\n/* note */ echo 'hi';\n".toList = .ok [] ∧
      isDeclarationOnly "<?php\n/* note */ echo 'hi';\n".toList = .ok false ∧
      (∀ line ∈ plainLines "<?php\n/* note */ echo 'hi';\n".toList,
        isGuardLine defaultConstants line = false) ∧
      ∃ cleaned, clean .commentsOnly "<?php\n/* note */ echo 'hi';\n".toList = .ok cleaned ∧
        cleaned ∉ codeless := by
  have hsequence : Sequence .markup (.openTag (mark "<?php") :: .plain (byte '\n') ::
      .blockComment (mark " note ") :: ((mark " echo ").map Piece.plain ++
      (.literal (byte '\'') ((mark "hi").map .plain) :: ((mark ";\n").map Piece.plain ++ [])))) :=
    .cons rfl (.inl rfl) trivial <|
    .cons rfl ⟨by decide, by decide⟩ trivial <|
    .cons rfl (show ¬ mark "*/" <:+: mark " note " by decide) trivial <|
    sequence_plain _ (List.all_iff_forall_prop.mp (by decide)) <| .cons rfl ⟨rfl, by decide⟩ trivial <|
    sequence_plain _ (List.all_iff_forall_prop.mp (by decide)) (.nil _)
  have hclean : clean .commentsOnly "<?php\n/* note */ echo 'hi';\n".toList =
      .ok "<?php\n           echo 'hi';\n".toList :=
    clean_eq_ok_iff.mpr ⟨_, scan_sequence hsequence .commentsOnly,
      decodeLossy_encode "<?php\n           echo 'hi';\n".toList⟩
  refine ⟨check_eq_ok_nil_iff.mpr (.inl (by decide)),
    isDeclarationOnly_eq_ok_iff.mpr ⟨_, hclean, by decide⟩, by decide, _, hclean, fun hcodeless => ?_⟩
  have hecho := over_codeless _ hcodeless 'e' (by decide)
  cases hecho

end Guard

end ExtensionLint.Script
