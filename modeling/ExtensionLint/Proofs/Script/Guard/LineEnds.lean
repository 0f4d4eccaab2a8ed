import ExtensionLint.Proofs.Script.Guard
import ExtensionLint.Proofs.Script.GuardLine
import ExtensionLint.Proofs.Script.LineEnds

/-!
# Guards and other line ends

The check for a guard cuts a script at its LFs. With CRLF it finds the same lines; with CR it takes the
whole script for one line (`isGuarded_cr`), so its verdict may be another
(`check_withLineEnds_iff`). That the script only declares does not depend on its line ends.
-/

namespace ExtensionLint.Script.Guard

open Text Utf8

variable {pattern text line source : List Char} {constant : String} {constants : List String}
  {place : Nat}

/-! ## A line with CR for its LFs -/

/-- A text without line breaks: neither kind of line end is in the way of finding it. -/
def Unbroken (w : List Char) : Prop := ∀ c ∈ w, isLineBreak c = false

instance (w : List Char) : Decidable (Unbroken w) := List.decidableBAll _ w

theorem Unbroken.not_mem {c : Char} (h : Unbroken pattern) (hc : isLineBreak c = true) :
    c ∉ pattern := by
  intro hmem
  rw [h c hmem] at hc
  cases hc

theorem isPrefixOf_cr (h : Unbroken pattern) (text : List Char) :
    pattern.isPrefixOf (withLineEnds cr text) = pattern.isPrefixOf text :=
  isPrefixOf_respell (List.cons_ne_nil _ _) (h.not_mem rfl)
    (List.forall_mem_singleton.mpr (h.not_mem rfl)) text

theorem withLineEnds_cr_eq_iff (h : Unbroken pattern) :
    withLineEnds cr text = pattern ↔ text = pattern := by
  constructor
  · rintro rfl
    -- an LF would have left a CR
    have hlf : '\n' ∉ text := by
      intro hmem
      refine h.not_mem (c := '\r') rfl ?_
      rw [withLineEnds_cr]
      exact List.mem_map.mpr ⟨'\n', hmem, rfl⟩
    exact (respell_of_not_mem hlf cr).symm
  · rintro rfl
    exact respell_of_not_mem (h.not_mem rfl) cr

theorem trim_cr (s : List Char) : trim (withLineEnds cr s) = withLineEnds cr (trim s) := by
  have hblank : (isBlank ∘ fun c => if c == '\n' then '\r' else c) = isBlank := by
    funext c
    by_cases hc : c = '\n'
    · subst hc
      rfl
    · rw [Function.comp_apply, if_neg (by simpa using hc)]
  simp only [trim, trimEnd, trimStart, withLineEnds_cr, List.dropWhile_map, ← List.map_reverse, hblank]

theorem toLower_eq_lf_iff (c : Char) : c.toLower = '\n' ↔ c = '\n' := by
  constructor
  · intro h
    unfold Char.toLower at h
    split at h
    · -- a small letter is not an LF
      rename_i hupper
      have hval : (c.val + ('a'.val - 'A'.val)).toNat = 10 := congrArg Char.toNat h
      have hlow : 65 ≤ c.val.toNat := UInt32.le_iff_toNat_le.mp hupper.1
      have hhigh : c.val.toNat ≤ 90 := UInt32.le_iff_toNat_le.mp hupper.2
      have hcase : ('a'.val - 'A'.val).toNat = 32 := rfl
      rw [UInt32.toNat_add, hcase] at hval
      omega
    · exact h
  · rintro rfl
    rfl

theorem lowerAscii_cr (s : List Char) :
    lowerAscii (withLineEnds cr s) = withLineEnds cr (lowerAscii s) :=
  respell_map toLower_eq_lf_iff rfl s

theorem occursAt_cr (h : Unbroken pattern) :
    OccursAt pattern (withLineEnds cr text) place ↔ OccursAt pattern text place := by
  have hdrop : (withLineEnds cr text).drop place = withLineEnds cr (text.drop place) := by
    rw [withLineEnds_cr, withLineEnds_cr, List.map_drop]
  rw [OccursAt, OccursAt, hdrop, ← List.isPrefixOf_iff_prefix, ← List.isPrefixOf_iff_prefix,
    isPrefixOf_cr h]

theorem firstAt_cr (h : Unbroken pattern) :
    FirstAt pattern (withLineEnds cr text) place ↔ FirstAt pattern text place := by
  constructor
  · rintro ⟨hoccurs, hfirst⟩
    exact ⟨(occursAt_cr h).mp hoccurs, fun i hi => hfirst i ((occursAt_cr h).mpr hi)⟩
  · rintro ⟨hoccurs, hfirst⟩
    exact ⟨(occursAt_cr h).mpr hoccurs, fun i hi => hfirst i ((occursAt_cr h).mp hi)⟩

theorem firstsInOrder_cr (h : Unbroken constant.toList) :
    FirstsInOrder constant (withLineEnds cr line) ↔ FirstsInOrder constant line := by
  have hdefined : Unbroken "defined".toList := by decide
  have hdie : Unbroken "die".toList := by decide
  simp only [FirstsInOrder, lowerAscii_cr, firstAt_cr hdefined, firstAt_cr hdie, firstAt_cr h]

theorem isGuardLine_cr (h : ∀ c ∈ constants, Unbroken c.toList) (line : List Char) :
    isGuardLine constants (withLineEnds cr line) = isGuardLine constants line := by
  rw [Bool.eq_iff_iff, isGuardLine_eq_true_iff, isGuardLine_eq_true_iff]
  exact exists_congr fun c => and_congr_right fun hc => firstsInOrder_cr (h c hc)

theorem isBareLine_cr (line : List Char) : isBareLine (withLineEnds cr line) = isBareLine line := by
  have htag (w : List Char) (h : Unbroken w) :
      (withLineEnds cr (trim line) == w) = (trim line == w) := by
    rw [Bool.eq_iff_iff, beq_iff_eq, beq_iff_eq, withLineEnds_cr_eq_iff h]
  have hempty : (withLineEnds cr (trim line)).isEmpty = (trim line).isEmpty :=
    isEmpty_respell (List.cons_ne_nil _ _) _
  rw [isBareLine, isBareLine, trim_cr, hempty, htag "<?php".toList (by decide),
    htag "?>".toList (by decide)]

theorem isCommentLine_cr (line : List Char) :
    isCommentLine (withLineEnds cr line) = isCommentLine line := by
  rw [isCommentLine, isCommentLine, trim_cr, startsWith, startsWith, startsWith, startsWith,
    isPrefixOf_cr (by decide), isPrefixOf_cr (by decide)]

/-! ## Verdicts -/

/-- The whole text passes for a line without code, for a guard line or for a comment. -/
def PassesAsOneLine (constants : List String) (source : List Char) : Prop :=
  isBareLine source = true ∨ isGuardLine constants source = true ∨ isCommentLine source = true

theorem isGuarded_crlf (constants : List String) (hcr : '\r' ∉ source) :
    isGuarded constants (withLineEnds crlf source) = isGuarded constants source := by
  rw [isGuarded, isGuarded, plainLines_crlf hcr]

/-- With CR for its line ends a script is judged as one line. -/
theorem isGuarded_cr (h : ∀ c ∈ constants, Unbroken c.toList) (source : List Char) :
    isGuarded constants (withLineEnds cr source) = true ↔ PassesAsOneLine constants source := by
  by_cases hne : source = []
  · subst hne
    exact ⟨fun _ => .inl rfl, fun _ => rfl⟩
  · rw [isGuarded_eq_true_iff, plainLines_cr hne, PassesAsOneLine, ← isBareLine_cr source,
      ← isGuardLine_cr h source, ← isCommentLine_cr source]
    simp only [List.mem_singleton, exists_eq_left, forall_eq]
    cases isBareLine (withLineEnds cr source) <;> simp

theorem isDeclarationOnly_withLineEnds {ends : List Char} (hends : IsOtherLineEnd ends)
    (source : List Char) : isDeclarationOnly (withLineEnds ends source) = isDeclarationOnly source := by
  rw [isDeclarationOnly, isDeclarationOnly, condense_withLineEnds hends]

theorem check_eq_ok_of_isDeclarationOnly {exempt : Bool} (h : isDeclarationOnly source = .ok exempt)
    (constants : List String) (path : String) :
    check constants path source =
      .ok (if isGuarded constants source || exempt then [] else [missing constants path]) := by
  rw [check, h]
  cases isGuarded constants source <;> cases exempt <;> rfl

/-- A script that can be cleaned gets the same entries with LF and with CRLF for its line ends. With CR it
gets them exactly if it only declares or passes line by line just as it does as one line. -/
theorem check_withLineEnds_iff (path : String) {source cleaned : List Char} (hcr : '\r' ∉ source)
    (hclean : clean .commentsOnly source = .ok cleaned)
    (hconstants : ∀ c ∈ constants, Unbroken c.toList) :
    ∃ entries, check constants path source = .ok entries ∧
      check constants path (withLineEnds crlf source) = .ok entries ∧
      (check constants path (withLineEnds cr source) = .ok entries ↔
        isDeclarationOnly source = .ok true ∨
          (isGuarded constants source = true ↔ PassesAsOneLine constants source)) := by
  have hexempt := isDeclarationOnly_eq_ok_iff.mpr ⟨cleaned, hclean, rfl⟩
  have hcrlf := (isDeclarationOnly_withLineEnds (.inl rfl) source).trans hexempt
  have hlone := (isDeclarationOnly_withLineEnds (.inr rfl) source).trans hexempt
  refine ⟨_, check_eq_ok_of_isDeclarationOnly hexempt constants path, ?_, ?_⟩
  · rw [check_eq_ok_of_isDeclarationOnly hcrlf, isGuarded_crlf constants hcr]
  · rw [check_eq_ok_of_isDeclarationOnly hlone, hexempt, ← isGuarded_cr hconstants]
    cases isDeclarative (collapse cleaned) <;> cases isGuarded constants source <;>
      cases isGuarded constants (withLineEnds cr source) <;> simp

/-- A guard behind a comment, line by line and as one line. -/
theorem check_withLineEnds_iff_guarded :
    let source := "<?php\ndefined('_JEXEC') or die;\n".toList
    '\r' ∉ source ∧ clean .commentsOnly source = .ok source ∧
      (∀ c ∈ ["_JEXEC"], Unbroken c.toList) ∧
      ∃ entries, check ["_JEXEC"] "view.php" source = .ok entries ∧
        check ["_JEXEC"] "view.php" "<?php\r\ndefined('_JEXEC') or die;\r\n".toList = .ok entries ∧
        check ["_JEXEC"] "view.php" "<?php\rdefined('_JEXEC') or die;\r".toList = .ok entries := by
  intro source
  have hcr : '\r' ∉ source := by decide
  have hsequence : Sequence .markup (.openTag (mark "<?php") :: ((mark "\ndefined(").map Piece.plain ++
      (.literal (byte '\'') ((mark "_JEXEC").map .plain) :: ((mark ") or die;\n").map Piece.plain ++ [])))) :=
    .cons rfl (.inl rfl) trivial <|
    sequence_plain _ (List.all_iff_forall_prop.mp (by decide)) <| .cons rfl ⟨rfl, by decide⟩ trivial <|
    sequence_plain _ (List.all_iff_forall_prop.mp (by decide)) (.nil _)
  have hclean : clean .commentsOnly source = .ok source :=
    clean_eq_ok_iff.mpr ⟨_, scan_sequence hsequence .commentsOnly, decodeLossy_encode source⟩
  have hconstants : ∀ c ∈ ["_JEXEC"], Unbroken c.toList := by decide
  obtain ⟨entries, hentries, hcrlf, hlone⟩ :=
    check_withLineEnds_iff "view.php" hcr hclean hconstants
  have hguarded : isGuarded ["_JEXEC"] source = true := by decide
  have hpasses : PassesAsOneLine ["_JEXEC"] source := .inr (.inl (by decide))
  exact ⟨hcr, hclean, hconstants, entries, hentries, hcrlf,
    hlone.mpr (.inr ⟨fun _ => hpasses, fun _ => hguarded⟩)⟩

/-- A script without code, for which the check wants a guard if CR ends its lines. -/
theorem check_misses_comment_between_crs :
    let source := "<?php\n// nothing here\n".toList
    '\r' ∉ source ∧ (∀ c ∈ defaultConstants, Unbroken c.toList) ∧
      clean .commentsOnly source = .ok "<?php\n               \n".toList ∧
      check defaultConstants "view.php" source = .ok [] ∧
      check defaultConstants "view.php" (withLineEnds cr source) =
        .ok [missing defaultConstants "view.php"] := by
  intro source
  have hsequence : Sequence .markup (.openTag (mark "<?php") :: .plain (byte '\n') ::
      .lineComment (mark "//") (mark " nothing here") :: ((mark "\n").map Piece.plain ++ [])) :=
    .cons rfl (.inl rfl) trivial <|
    .cons rfl ⟨by decide, by decide⟩ trivial <|
    .cons rfl ⟨.inl rfl, List.all_iff_forall_prop.mp (by decide), by decide⟩ rfl <|
    sequence_plain _ (List.all_iff_forall_prop.mp (by decide)) (.nil _)
  have hclean : clean .commentsOnly source = .ok "<?php\n               \n".toList :=
    clean_eq_ok_iff.mpr ⟨_, scan_sequence hsequence .commentsOnly,
      decodeLossy_encode "<?php\n               \n".toList⟩
  have hexempt : isDeclarationOnly source = .ok false :=
    isDeclarationOnly_eq_ok_iff.mpr ⟨_, hclean, by decide⟩
  refine ⟨by decide, by decide, hclean, ?_, ?_⟩
  · rw [check_eq_ok_of_isDeclarationOnly hexempt]
    have hguarded : isGuarded defaultConstants source = true := by decide
    rw [hguarded]
    rfl
  · rw [check_eq_ok_of_isDeclarationOnly ((isDeclarationOnly_withLineEnds (.inr rfl) source).trans hexempt)]
    have hguarded : isGuarded defaultConstants (withLineEnds cr source) = false := by decide
    rw [hguarded]
    rfl

end ExtensionLint.Script.Guard
