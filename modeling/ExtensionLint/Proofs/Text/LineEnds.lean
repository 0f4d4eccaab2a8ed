import Mathlib.Data.Bool.AllAny
import ExtensionLint.Proofs.Text.Blank
import ExtensionLint.Proofs.Text.PlainLines
import ExtensionLint.Text.Search

/-!
# Other line ends

A text with LF for its line ends can be written with CRLF or CR instead. Its physical lines stay the
same (`physicalLines_withLineEnds`), and so do its plain lines with CRLF (`plainLines_crlf`); with CR it
is one plain line. What looks for signs other than line ends finds the same in all three.
-/

namespace ExtensionLint.Text

open Utf8

/-! ## Writing one item for another -/

section

variable {α : Type} [BEq α]

/-- The list with `new` in place of each `old`. -/
def respell (old : α) (new l : List α) : List α := l.flatMap fun x => if x == old then new else [x]

theorem respell_nil (old : α) (new : List α) : respell old new [] = [] := rfl

theorem respell_append (old : α) (new l m : List α) :
    respell old new (l ++ m) = respell old new l ++ respell old new m := List.flatMap_append

variable [LawfulBEq α] {old x : α} {new l pattern : List α}

theorem respell_cons_self (old : α) (new l : List α) :
    respell old new (old :: l) = new ++ respell old new l := by
  rw [respell, List.flatMap_cons, if_pos BEq.rfl]
  rfl

theorem respell_cons_of_ne (h : x ≠ old) (new l : List α) :
    respell old new (x :: l) = x :: respell old new l := by
  rw [respell, List.flatMap_cons, if_neg (by simpa using h)]
  rfl

theorem respell_of_not_mem (h : old ∉ l) (new : List α) : respell old new l = l := by
  induction l with
  | nil => rfl
  | cons x l ih =>
      obtain ⟨hx, hl⟩ := not_or.mp fun hor => h (List.mem_cons.mpr hor)
      rw [respell_cons_of_ne (Ne.symm hx), ih hl]

theorem respell_map {g : α → α} (hg : ∀ x, g x = old ↔ x = old) (hnew : new.map g = new) (l : List α) :
    (respell old new l).map g = respell old new (l.map g) := by
  induction l with
  | nil => rfl
  | cons x l ih =>
      rw [List.map_cons]
      by_cases hx : x = old
      · rw [(hg x).mpr hx, hx, respell_cons_self, respell_cons_self, List.map_append, hnew, ih]
      · rw [respell_cons_of_ne hx, respell_cons_of_ne (mt (hg x).mp hx), List.map_cons, ih]

theorem mem_of_mem_respell (h : x ∈ respell old new l) : x ∈ new ∨ x ∈ l ∧ x ≠ old := by
  obtain ⟨y, hy, hx⟩ := List.mem_flatMap.mp h
  split at hx
  · exact .inl hx
  · rename_i hne
    obtain rfl := List.mem_singleton.mp hx
    exact .inr ⟨hy, by simpa using hne⟩

/-- Tells neither the old item nor the new ones from each other, nor from the end of the list. -/
structure Blind (old : α) (new : List α) (p : α → Bool) : Prop where
  old : p old = false
  new : ∀ x ∈ new, p x = false

/-- What a list with new items begins with. -/
theorem exists_respell_cons (old : α) (new l : List α) (hne : new ≠ []) :
    ∃ x ∈ new, ∃ behind, respell old new (old :: l) = x :: behind := by
  obtain ⟨x, further, rfl⟩ := List.exists_cons_of_ne_nil hne
  exact ⟨x, List.mem_cons_self, further ++ respell old _ l, respell_cons_self old _ l⟩

variable {p : α → Bool} (hne : new ≠ [])
include hne

theorem length_le_respell (l : List α) : l.length ≤ (respell old new l).length := by
  induction l with
  | nil => exact Nat.le_refl 0
  | cons x l ih =>
      by_cases hx : x = old
      · have hpos := List.length_pos_iff.mpr hne
        rw [hx, respell_cons_self, List.length_append, List.length_cons]
        omega
      · rw [respell_cons_of_ne hx]
        exact Nat.succ_le_succ ih

theorem isEmpty_respell (l : List α) : (respell old new l).isEmpty = l.isEmpty := by
  cases l with
  | nil => rfl
  | cons x l =>
      have hle : (x :: l).length ≤ (respell old new (x :: l)).length := length_le_respell hne _
      rw [List.isEmpty_cons, Bool.eq_false_iff, Ne, List.isEmpty_iff, ← List.length_eq_zero_iff]
      rw [List.length_cons] at hle
      omega

theorem isPrefixOf_respell (hold : old ∉ pattern) (hnew : ∀ x ∈ new, x ∉ pattern) (l : List α) :
    pattern.isPrefixOf (respell old new l) = pattern.isPrefixOf l := by
  induction pattern generalizing l with
  | nil => rfl
  | cons y pattern ih =>
      have hrest (l : List α) := ih (fun h => hold (List.mem_cons_of_mem y h))
        (fun x hx h => hnew x hx (List.mem_cons_of_mem y h)) l
      cases l with
      | nil => rfl
      | cons x l =>
          by_cases hx : x = old
          · subst hx
            obtain ⟨z, hz, behind, hbehind⟩ := exists_respell_cons x new l hne
            have hyx : (y == x) = false := by
              rw [beq_eq_false_iff_ne]
              rintro rfl
              exact hold List.mem_cons_self
            have hyz : (y == z) = false := by
              rw [beq_eq_false_iff_ne]
              rintro rfl
              exact hnew y hz List.mem_cons_self
            rw [hbehind, List.isPrefixOf_cons_cons, List.isPrefixOf_cons_cons, hyx, hyz]
            rfl
          · rw [respell_cons_of_ne hx, List.isPrefixOf_cons_cons, List.isPrefixOf_cons_cons, hrest]

theorem head?_any_respell (hp : Blind old new p) (l : List α) :
    (respell old new l).head?.any p = l.head?.any p := by
  cases l with
  | nil => rfl
  | cons x l =>
      by_cases hx : x = old
      · subst hx
        obtain ⟨z, hz, behind, hbehind⟩ := exists_respell_cons x new l hne
        rw [hbehind, List.head?_cons, List.head?_cons, Option.any_some, Option.any_some, hp.old,
          hp.new z hz]
      · rw [respell_cons_of_ne hx]
        rfl

theorem span_respell (hp : Blind old new p) (l : List α) :
    (respell old new l).takeWhile p = l.takeWhile p ∧
      (respell old new l).dropWhile p = respell old new (l.dropWhile p) := by
  induction l with
  | nil => exact ⟨rfl, rfl⟩
  | cons x l ih =>
      by_cases hx : x = old
      · subst hx
        obtain ⟨z, hz, behind, hbehind⟩ := exists_respell_cons x new l hne
        have hpx : ¬ p x = true := Bool.eq_false_iff.mp hp.old
        have hpz : ¬ p z = true := Bool.eq_false_iff.mp (hp.new z hz)
        rw [List.takeWhile_cons_of_neg hpx, List.dropWhile_cons_of_neg hpx, hbehind,
          List.takeWhile_cons_of_neg hpz, List.dropWhile_cons_of_neg hpz]
        exact ⟨rfl, rfl⟩
      · rw [respell_cons_of_ne hx]
        cases hpx : p x with
        | true =>
            rw [List.takeWhile_cons_of_pos hpx, List.dropWhile_cons_of_pos hpx,
              List.takeWhile_cons_of_pos hpx, List.dropWhile_cons_of_pos hpx, ih.1, ih.2]
            exact ⟨rfl, rfl⟩
        | false =>
            have hpx : ¬ p x = true := Bool.eq_false_iff.mp hpx
            rw [List.takeWhile_cons_of_neg hpx, List.dropWhile_cons_of_neg hpx,
              List.takeWhile_cons_of_neg hpx, List.dropWhile_cons_of_neg hpx, respell_cons_of_ne hx]
            exact ⟨rfl, rfl⟩

end

/-! ## Line ends -/

def crlf : List Char := ['\r', '\n']

def cr : List Char := ['\r']

/-- A line end that may be written for an LF. -/
def IsOtherLineEnd (ends : List Char) : Prop := ends = crlf ∨ ends = cr

/-- The text with another line end in place of each LF. -/
def withLineEnds (ends s : List Char) : List Char := respell '\n' ends s

theorem IsOtherLineEnd.ne_nil {ends : List Char} (h : IsOtherLineEnd ends) : ends ≠ [] := by
  rcases h with rfl | rfl <;> exact List.cons_ne_nil _ _

theorem IsOtherLineEnd.isLineBreak {ends : List Char} (h : IsOtherLineEnd ends) :
    ∀ c ∈ ends, isLineBreak c = true := by
  rcases h with rfl | rfl <;> exact List.all_iff_forall_prop.mp (by decide)

theorem isBlank_of_isLineBreak {c : Char} (h : isLineBreak c = true) : isBlank c = true := by
  simp only [isLineBreak, Bool.or_eq_true, beq_iff_eq] at h
  rcases h with rfl | rfl <;> rfl

theorem not_isLineBreak_iff {c : Char} : isLineBreak c = false ↔ c ≠ '\n' ∧ c ≠ '\r' := by
  simp only [isLineBreak, Bool.or_eq_false_iff, beq_eq_false_iff_ne]

theorem withLineEnds_cr (s : List Char) :
    withLineEnds cr s = s.map fun c => if c == '\n' then '\r' else c := by
  induction s with
  | nil => rfl
  | cons c s ih =>
      rw [List.map_cons, ← ih, withLineEnds, respell, List.flatMap_cons]
      split <;> rfl

theorem length_withLineEnds_cr (s : List Char) : (withLineEnds cr s).length = s.length := by
  rw [withLineEnds_cr, List.length_map]

theorem lf_not_mem_cr (s : List Char) : '\n' ∉ withLineEnds cr s := by
  intro h
  rcases mem_of_mem_respell h with h | ⟨_, h⟩
  · exact absurd h (by decide)
  · exact h rfl

/-! ## Lines -/

theorem cutLines_withLineEnds {ends : List Char} (hends : IsOtherLineEnd ends) {s : List Char}
    (h : '\r' ∉ s) (line : List Char) (done : List (List Char)) :
    cutLines (withLineEnds ends s) line done = cutLines s line done := by
  induction s generalizing line done with
  | nil => rfl
  | cons c s ih =>
      obtain ⟨hc, hs⟩ := not_or.mp fun hor => h (List.mem_cons.mpr hor)
      have hplain (t : List Char) : ∀ u, c = '\r' → t = '\n' :: u → False :=
        fun _ hcr _ => hc hcr.symm
      by_cases hlf : c = '\n'
      · subst hlf
        have hrest := ih hs [] (line.reverse :: done)
        rw [withLineEnds, respell_cons_self, cutLines.eq_3 _ _ _ _ (hplain s),
          if_pos (show isLineBreak '\n' = true from rfl), ← hrest]
        rcases hends with rfl | rfl
        · rfl
        · have hlone : ∀ u, '\r' = '\r' → withLineEnds cr s = '\n' :: u → False := by
            intro u _ hu
            exact lf_not_mem_cr s (hu ▸ List.mem_cons_self)
          exact cutLines.eq_3 _ _ _ _ hlone
      · have hbreak : ¬ isLineBreak c = true :=
          Bool.eq_false_iff.mp (not_isLineBreak_iff.mpr ⟨hlf, Ne.symm hc⟩)
        rw [withLineEnds, respell_cons_of_ne hlf, cutLines.eq_3 _ _ _ _ (hplain _),
          cutLines.eq_3 _ _ _ _ (hplain _), if_neg hbreak, if_neg hbreak]
        exact ih hs _ _

theorem physicalLines_withLineEnds {ends : List Char} (hends : IsOtherLineEnd ends) {s : List Char}
    (h : '\r' ∉ s) : physicalLines (withLineEnds ends s) = physicalLines s :=
  cutLines_withLineEnds hends h [] []

theorem closedLine_of_not_mem {line : List Char} (h : '\r' ∉ line) :
    closedLine line = line.reverse := by
  refine closedLine.eq_2 line fun rest hrest => h ?_
  rw [hrest]
  exact List.mem_cons_self

theorem cutPlainLines_crlf {s : List Char} (h : '\r' ∉ s) {line : List Char} (hline : '\r' ∉ line)
    (done : List (List Char)) :
    cutPlainLines (withLineEnds crlf s) line done = cutPlainLines s line done := by
  induction s generalizing line done with
  | nil => rfl
  | cons c s ih =>
      obtain ⟨hc, hs⟩ := not_or.mp fun hor => h (List.mem_cons.mpr hor)
      by_cases hlf : c = '\n'
      · subst hlf
        have hrest := ih hs (show '\r' ∉ [] from List.not_mem_nil) (closedLine line :: done)
        rw [withLineEnds, respell_cons_self, cutPlainLines, if_pos BEq.rfl, ← hrest,
          closedLine_of_not_mem hline]
        rfl
      · have hne : ¬ (c == '\n') = true := by simpa using hlf
        rw [withLineEnds, respell_cons_of_ne hlf, cutPlainLines, cutPlainLines, if_neg hne, if_neg hne]
        exact ih hs (fun hmem => (List.mem_cons.mp hmem).elim hc hline) done

theorem plainLines_crlf {s : List Char} (h : '\r' ∉ s) :
    plainLines (withLineEnds crlf s) = plainLines s :=
  cutPlainLines_crlf h List.not_mem_nil []

theorem plainLines_cr {s : List Char} (hne : s ≠ []) :
    plainLines (withLineEnds cr s) = [withLineEnds cr s] := by
  refine plainLines_of_not_mem (lf_not_mem_cr s) fun hnil => hne ?_
  rw [List.eq_nil_iff_length_eq_zero] at hnil ⊢
  rwa [length_withLineEnds_cr] at hnil

/-! ## Blanks -/

theorem Spacing.blank_blank (spacing : Spacing) : spacing.blank.blank = spacing.blank := by
  cases spacing <;> rfl

theorem tidy_blanks {front : List Char} (hne : front ≠ []) (h : ∀ c ∈ front, isBlank c = true)
    (spacing : Spacing) (s : List Char) : tidy spacing (front ++ s) = tidy spacing.blank s := by
  induction front generalizing spacing with
  | nil => exact absurd rfl hne
  | cons c front ih =>
      obtain ⟨hc, hfront⟩ := List.forall_mem_cons.mp h
      rw [List.cons_append, tidy_blank hc]
      by_cases hempty : front = []
      · rw [hempty, List.nil_append]
      · rw [ih hempty hfront, Spacing.blank_blank]

theorem tidy_withLineEnds {ends : List Char} (hends : IsOtherLineEnd ends) (spacing : Spacing)
    (s : List Char) : tidy spacing (withLineEnds ends s) = tidy spacing s := by
  have hblanks : ∀ c ∈ ends, isBlank c = true :=
    fun c hc => isBlank_of_isLineBreak (hends.isLineBreak c hc)
  induction s generalizing spacing with
  | nil => rfl
  | cons c s ih =>
      by_cases hlf : c = '\n'
      · subst hlf
        rw [withLineEnds, respell_cons_self, tidy_blanks hends.ne_nil hblanks, tidy_blank rfl]
        exact ih _
      · rw [withLineEnds, respell_cons_of_ne hlf, tidy, tidy]
        split
        · exact ih _
        · exact congrArg (fun rest => spacing.gap ++ c :: rest) (ih .tight)

theorem collapse_withLineEnds {ends : List Char} (hends : IsOtherLineEnd ends) (s : List Char) :
    collapse (withLineEnds ends s) = collapse s := by
  rw [collapse_eq_tidy, collapse_eq_tidy, tidy_withLineEnds hends]

/-! ## Bytes -/

theorem encode_withLineEnds (ends s : List Char) :
    encode (withLineEnds ends s) = respell 0x0A (encode ends) (encode s) := by
  induction s with
  | nil => rfl
  | cons c s ih =>
      rw [encode_cons, respell_append, ← ih]
      by_cases hlf : c = '\n'
      · subst hlf
        have hbyte : String.utf8EncodeChar '\n' = [0x0A] := rfl
        rw [hbyte, respell_cons_self, respell_nil, List.append_nil, withLineEnds, respell_cons_self,
          encode_append]
        rfl
      · have hbytes : 0x0A ∉ String.utf8EncodeChar c := fun h =>
          hlf (encodeChar_eq_singleton (by decide) h)
        rw [respell_of_not_mem hbytes, withLineEnds, respell_cons_of_ne hlf, encode_cons]
        rfl

theorem cr_mem_encode_iff {s : List Char} : 0x0D ∈ encode s ↔ '\r' ∈ s :=
  ascii_mem_encode_iff (by decide)

end ExtensionLint.Text
