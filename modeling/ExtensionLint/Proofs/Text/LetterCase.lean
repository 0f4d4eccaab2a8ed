import ExtensionLint.Text.LetterCase
import ExtensionLint.Text.Search

/-!
# Lower case beyond ASCII

The only letter beyond ASCII with an ASCII letter as its lower-case partner is the Kelvin sign; the dotted
capital I becomes an ASCII letter with a mark. So a text has an ASCII word without `k` as its lower case
exactly if it is that word up to ASCII case (`lowered_eq_iff`).
-/

namespace ExtensionLint.Text

/-! ## One character -/

/-- The partners of the letters lie beyond ASCII, and all of them are characters. -/
def CaseRun.StaysBeyond (r : CaseRun) : Prop :=
  0x80 ≤ r.first + r.offset ∧ (r.last + r.offset < 0xD800 ∨
    0xDFFF < r.first + r.offset ∧ r.last + r.offset < 0x110000)
  deriving Decidable

/-- The Kelvin sign, whose partner is `k`. -/
def kelvin : CaseRun := ⟨0x212A, 0x212A, 1, -8383⟩

theorem eq_of_has_kelvin {n : Nat} (h : kelvin.has n = true) : n = 0x212A := by
  simp only [CaseRun.has, Bool.and_eq_true, decide_eq_true_eq] at h
  exact Nat.le_antisymm h.1.2 h.1.1

theorem run_cases : ∀ r ∈ lowerRuns, r.last < 0x80 ∨ r = kelvin ∨ r.StaysBeyond := by
  decide +kernel

theorem CaseRun.StaysBeyond.le_toNat_shift {r : CaseRun} (h : r.StaysBeyond) {c : Char}
    (hc : r.has c.toNat = true) : 0x80 ≤ (shift c r.offset).toNat := by
  obtain ⟨hbeyond, hchar⟩ := h
  simp only [has, Bool.and_eq_true, decide_eq_true_eq] at hc
  have hvalid : ((c.toNat : Int) + r.offset).toNat.isValidChar := by
    rcases hchar with hlow | hhigh
    · exact .inl (by omega)
    · exact .inr (by omega)
  have hshift : (shift c r.offset).toNat = ((c.toNat : Int) + r.offset).toNat := by
    rw [shift, Char.ofNat, dif_pos hvalid]
    rfl
  omega

theorem lower_ascii {c : Char} (h : c.toNat < 0x80) : lower c = c.toLower := if_pos h

theorem toLower_of_not_ascii {c : Char} (h : 0x80 ≤ c.toNat) : c.toLower = c := by
  refine dif_neg fun hcapital => ?_
  have hle : c.toNat ≤ 90 := hcapital.2
  omega

/-- Beyond ASCII, lower case stays there, except for the Kelvin sign. -/
theorem lower_beyond {c : Char} (h : 0x80 ≤ c.toNat) : 0x80 ≤ (lower c).toNat ∨ lower c = 'k' := by
  rw [lower, if_neg (Nat.not_lt.mpr h)]
  cases hfind : lowerRuns.find? (·.has c.toNat) with
  | none => exact .inl h
  | some r =>
      have hhas : r.has c.toNat = true := List.find?_some (p := fun r : CaseRun => r.has c.toNat) hfind
      rcases run_cases r (List.mem_of_find?_eq_some hfind) with hascii | rfl | hbeyond
      · simp only [CaseRun.has, Bool.and_eq_true, decide_eq_true_eq] at hhas
        omega
      · refine .inr ?_
        change Char.ofNat (c.toNat + kelvin.offset).toNat = 'k'
        rw [eq_of_has_kelvin hhas]
        rfl
      · exact .inl (hbeyond.le_toNat_shift hhas)

/-! ## Words -/

/-- The letters of the word are the lower case of ASCII letters only. -/
def PlainWord (w : List Char) : Prop := ∀ c ∈ w, c.toNat < 0x80 ∧ c ≠ 'k'

-- item by item: `Char` is finite, so that all characters could be gone through instead
instance (w : List Char) : Decidable (PlainWord w) := List.decidableBAll _ w

theorem lower_eq_iff {c x : Char} (hx : x.toNat < 0x80 ∧ x ≠ 'k') : lower c = x ↔ c.toLower = x := by
  by_cases hc : c.toNat < 0x80
  · rw [lower_ascii hc]
  · have hbeyond := Nat.le_of_not_lt hc
    rw [toLower_of_not_ascii hbeyond]
    constructor
    · rintro rfl
      rcases lower_beyond hbeyond with h | h
      · omega
      · exact absurd h hx.2
    · rintro rfl
      exact absurd hx.1 hc

/-- What a character becomes in front of `s`. -/
def loweredHead (before : List Char) (c : Char) (s : List Char) : List Char :=
  if c = 'Σ' then [if meetsCased before && !meetsCased s then 'ς' else 'σ']
  else if c = 'İ' then ['i', '\u0307']
  else [lower c]

theorem loweredHead_special {c : Char} (h : c = 'Σ' ∨ c = 'İ') (before s : List Char) :
    0x80 ≤ c.toNat ∧ ∃ x ∈ loweredHead before c s, 0x80 ≤ x.toNat := by
  rcases h with rfl | rfl
  · refine ⟨by decide, _, List.mem_singleton_self _, ?_⟩
    split <;> decide
  · exact ⟨by decide, '\u0307', List.mem_cons_of_mem _ (List.mem_singleton_self _), by decide⟩

theorem lowerFrom_cons (before : List Char) (c : Char) (s done : List Char) :
    lowerFrom before (c :: s) done =
      lowerFrom (c :: before) s ((loweredHead before c s).reverse ++ done) := by
  simp only [lowerFrom, loweredHead, beq_iff_eq]
  split
  · rfl
  · split <;> rfl

theorem lowerFrom_done (before s done : List Char) :
    lowerFrom before s done = done.reverse ++ lowerFrom before s [] := by
  induction s generalizing before done with
  | nil => simp [lowerFrom]
  | cons c s ih =>
      rw [lowerFrom_cons, ih, lowerFrom_cons, ih _ (_ ++ [])]
      simp

theorem lowerFrom_eq_iff {w : List Char} (hw : PlainWord w) (before s : List Char) :
    lowerFrom before s [] = w ↔ lowerAscii s = w := by
  induction s generalizing before w with
  | nil => rfl
  | cons c s ih =>
      have hascii : lowerAscii (c :: s) = c.toLower :: lowerAscii s := rfl
      rw [lowerFrom_cons, lowerFrom_done, List.append_nil, List.reverse_reverse, hascii]
      by_cases hc : c = 'Σ' ∨ c = 'İ'
      · -- beyond ASCII on either side, so that there is no such word
        obtain ⟨hbeyond, x, hx, hx'⟩ := loweredHead_special hc before s
        rw [toLower_of_not_ascii hbeyond]
        refine iff_of_false ?_ ?_
        · rintro rfl
          have hplain := hw x (List.mem_append_left _ hx)
          omega
        · rintro rfl
          have hplain := hw c List.mem_cons_self
          omega
      · obtain ⟨hsigma, hdotted⟩ := not_or.mp hc
        rw [loweredHead, if_neg hsigma, if_neg hdotted, List.singleton_append]
        cases w with
        | nil => exact iff_of_false (List.cons_ne_nil _ _) (List.cons_ne_nil _ _)
        | cons x w =>
            obtain ⟨hx, hw⟩ := List.forall_mem_cons.mp hw
            rw [List.cons.injEq, List.cons.injEq, lower_eq_iff hx, ih hw]

/-- A text has a plain word as its lower case exactly if it is the word up to ASCII case. -/
theorem lowered_eq_iff {w : String} (hw : PlainWord w.toList) (s : String) :
    lowered s = w ↔ lowerAscii s.toList = w.toList := by
  rw [← lowerFrom_eq_iff hw [], lowered, ← String.toList_inj, String.toList_ofList]

end ExtensionLint.Text
