import ExtensionLint.Proofs.Script.Lexing

/-!
# Hiding comments and hiding markup

What is hidden does not change how a script is read (`exists_layers`). So hiding comments and hiding
markup do not touch each other: they change different bytes, and together they change what each of them
changes alone (`clean_by_position`).
-/

namespace ExtensionLint.Script

open Text Utf8

/-- The layers of a script that can be read, and what is written of them under each choice. -/
theorem exists_layers {o : Blanking} {source cleaned : List Char} (h : clean o source = .ok cleaned) :
    ∃ l : List (UInt8 × Layer), l.map Prod.fst = encode source ∧
      ∀ o' : Blanking, ∃ other, clean o' source = .ok other ∧ encode other = l.map o'.write := by
  obtain ⟨_, hscan, _⟩ := clean_eq_ok_iff.mp h
  obtain ⟨l, q, hreads, hend, _⟩ := scan_eq_ok_iff.mp hscan
  refine ⟨l, hreads.map_fst hend, fun o' => ?_⟩
  have hscan' : scan o' (encode source) = .ok (l.map o'.write) :=
    scan_eq_ok_iff.mpr ⟨l, q, hreads, hend, rfl⟩
  exact ⟨_, clean_eq_ok_iff.mpr ⟨_, hscan', rfl⟩, encode_decodeLossy_scan hscan'⟩

/-- Whether a cleaned script differs from the script at a byte. -/
def changesAt (source cleaned : List Char) (i : Nat) : Bool :=
  (encode cleaned)[i]? != (encode source)[i]?

theorem shown_false (b : UInt8) : shown false b = b := rfl

/-- A byte is written as a space if it is one, or if it is hidden and hiding changes it. -/
theorem shown_eq_ite (hidden : Bool) (b : UInt8) :
    shown hidden b = if b == byte ' ' || hidden && shown true b != b then byte ' ' else b := by
  by_cases hb : b = byte ' '
  · subst hb
    cases hidden <;> rfl
  · cases hidden with
    | false => simp [shown_false, hb]
    | true =>
        by_cases hkept : shown true b = b
        · simp [hkept, hb]
        · have hspace : shown true b = byte ' ' := by
            cases hend : isLineEnd b with
            | true => exact absurd (by simp [shown, hend]) hkept
            | false => simp [shown, hend]
          simp [hspace, Ne.symm hb]

section Layers

variable {source other : List Char} {l : List (UInt8 × Layer)} (hsource : l.map Prod.fst = encode source)
include hsource

theorem changesAt_eq {o : Blanking} (hother : encode other = l.map o.write) {i : Nat} {b : UInt8}
    {layer : Layer} (hi : l[i]? = some (b, layer)) :
    changesAt source other i = (shown (o.hides layer) b != b) := by
  rw [changesAt, hother, ← hsource, List.getElem?_map, List.getElem?_map, hi]
  rfl

theorem exists_layer_of_changesAt {o : Blanking} (hother : encode other = l.map o.write) {i : Nat}
    (h : changesAt source other i = true) :
    ∃ b layer, l[i]? = some (b, layer) ∧ o.hides layer = true := by
  cases hi : l[i]? with
  | none =>
      rw [changesAt, hother, ← hsource, List.getElem?_map, List.getElem?_map, hi] at h
      cases h
  | some x =>
      obtain ⟨b, layer⟩ := x
      rw [changesAt_eq hsource hother hi] at h
      refine ⟨b, layer, rfl, ?_⟩
      by_contra hhides
      rw [Bool.eq_false_iff.mpr hhides] at h
      have hkept : shown false b = b := rfl
      simp [hkept] at h

end Layers

/-- With nothing to hide a script stays as it is, and otherwise a byte changes exactly if a choice that is
made changes it alone. -/
theorem clean_by_position {o : Blanking} {source cleaned : List Char}
    (h : clean o source = .ok cleaned) :
    clean ⟨false, false⟩ source = .ok source ∧
    ∃ uncommented unmarked,
      clean ⟨true, false⟩ source = .ok uncommented ∧ clean ⟨false, true⟩ source = .ok unmarked ∧
      (∀ i, ¬ (changesAt source uncommented i = true ∧ changesAt source unmarked i = true)) ∧
      ∀ o' : Blanking, ∃ other, clean o' source = .ok other ∧
        (encode other).length = (encode source).length ∧
        ∀ (i : Nat) (b : UInt8), (encode source)[i]? = some b →
          (encode other)[i]? = some
            (if b == byte ' ' || o'.comments && changesAt source uncommented i ||
                o'.markup && changesAt source unmarked i
              then byte ' ' else b) := by
  obtain ⟨l, hsource, hclean⟩ := exists_layers h
  obtain ⟨uncommented, huncommented, hcomments⟩ := hclean ⟨true, false⟩
  obtain ⟨unmarked, hunmarked, hmarkup⟩ := hclean ⟨false, true⟩
  refine ⟨?_, uncommented, unmarked, huncommented, hunmarked, ?_, fun o' => ?_⟩
  · obtain ⟨other, hother, hwritten⟩ := hclean ⟨false, false⟩
    have hkept : l.map (Blanking.write ⟨false, false⟩) = l.map Prod.fst :=
      List.map_congr_left fun x _ => by cases x with | mk b layer => cases layer <;> rfl
    rw [hkept, hsource] at hwritten
    rw [hother, ← decodeLossy_encode other, hwritten, decodeLossy_encode]
  · rintro i ⟨hcomment, hmark⟩
    obtain ⟨b, layer, hi, hhides⟩ := exists_layer_of_changesAt hsource hcomments hcomment
    obtain ⟨_, _, hi', hhides'⟩ := exists_layer_of_changesAt hsource hmarkup hmark
    cases hi.symm.trans hi'
    cases layer
    · cases hhides
    · cases hhides
    · cases hhides'
    · cases hhides
  · obtain ⟨other, hother, hwritten⟩ := hclean o'
    refine ⟨other, hother, by rw [hwritten, ← hsource, List.length_map, List.length_map], ?_⟩
    intro i b hb
    rw [← hsource, List.getElem?_map, Option.map_eq_some_iff] at hb
    obtain ⟨⟨_, layer⟩, hi, rfl⟩ := hb
    rw [hwritten, List.getElem?_map, hi, changesAt_eq hsource hcomments hi,
      changesAt_eq hsource hmarkup hi, Option.map_some, Blanking.write, shown_eq_ite]
    cases layer <;> simp [Blanking.hides, shown_false]

theorem clean_by_position_markup_and_comment :
    clean .all "é<?php #é".toList = .ok "  <?php    ".toList ∧
      clean ⟨false, false⟩ "é<?php #é".toList = .ok "é<?php #é".toList ∧
      ∃ uncommented unmarked,
        clean ⟨true, false⟩ "é<?php #é".toList = .ok uncommented ∧
        clean ⟨false, true⟩ "é<?php #é".toList = .ok unmarked ∧
        ∀ i, ¬ (changesAt "é<?php #é".toList uncommented i = true ∧
          changesAt "é<?php #é".toList unmarked i = true) := by
  have hreads : Reads ⟨.markup, none, encode "é<?php #é".toList⟩
      ((encode "é".toList).map (·, .markup) ++ (mark "<?php ").map (·, .code) ++
        (encode "#é".toList).map (·, .comment))
      ⟨.lineComment, some 0xA9, []⟩ :=
    .step (b := 0xC3) (.text rfl) <|
    .step (b := 0xA9) (.text rfl) <|
    .step (b := byte '<') (.openTag rfl) <|
    .step (b := byte ' ') (.plain ⟨rfl, rfl, rfl⟩ rfl rfl) <|
    .still (b := byte '#') (.openLineComment rfl rfl) <|
    .step (b := byte '#') (.inLine rfl rfl) <|
    .step (b := 0xC3) (.inLine rfl rfl) <|
    .step (b := 0xA9) (.inLine rfl rfl) (.refl _)
  have hscan : scan .all (encode "é<?php #é".toList) = .ok (encode "  <?php    ".toList) :=
    scan_eq_ok_iff.mpr ⟨_, _, hreads, rfl, rfl⟩
  have hclean : clean .all "é<?php #é".toList = .ok "  <?php    ".toList :=
    clean_eq_ok_iff.mpr ⟨_, hscan, decodeLossy_encode _⟩
  obtain ⟨hkept, uncommented, unmarked, huncommented, hunmarked, hapart, _⟩ := clean_by_position hclean
  exact ⟨hclean, hkept, uncommented, unmarked, huncommented, hunmarked, hapart⟩

end ExtensionLint.Script
