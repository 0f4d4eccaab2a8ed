import Mathlib.Data.Nat.Find
import ExtensionLint.Text.Search

/-!
# Places where a text occurs

Searching for a pattern gives the first of the places where it occurs (`index?_eq_some_iff`).
-/

namespace ExtensionLint.Text

variable {pattern text : List Char} {i place : Nat}

/-- The pattern stands in the text at an offset. -/
def OccursAt (pattern text : List Char) (place : Nat) : Prop := pattern <+: text.drop place

/-- The pattern stands at the offset, and nowhere before. -/
structure FirstAt (pattern text : List Char) (place : Nat) : Prop where
  occurs : OccursAt pattern text place
  first : ∀ i, OccursAt pattern text i → place ≤ i

theorem FirstAt.unique {place' : Nat} (h : FirstAt pattern text place)
    (h' : FirstAt pattern text place') : place = place' :=
  Nat.le_antisymm (h.first _ h'.occurs) (h'.first _ h.occurs)

theorem exists_firstAt (h : OccursAt pattern text i) : ∃ place ≤ i, FirstAt pattern text place := by
  classical
  have hplace : ∃ i, OccursAt pattern text i := ⟨i, h⟩
  exact ⟨Nat.find hplace, Nat.find_min' hplace h, Nat.find_spec hplace, fun _ => Nat.find_min' hplace⟩

theorem firstAt_zero (h : OccursAt pattern text 0) : FirstAt pattern text 0 :=
  ⟨h, fun i _ => i.zero_le⟩

theorem firstAt_cons_iff {c : Char} (h : ¬ OccursAt pattern (c :: text) 0) :
    FirstAt pattern (c :: text) place ↔ ∃ i, FirstAt pattern text i ∧ place = i + 1 := by
  constructor
  · rintro ⟨hoccurs, hfirst⟩
    cases place with
    | zero => exact absurd hoccurs h
    | succ i =>
        refine ⟨i, ⟨hoccurs, fun j hj => ?_⟩, rfl⟩
        exact Nat.le_of_succ_le_succ (hfirst (j + 1) hj)
  · rintro ⟨i, ⟨hoccurs, hfirst⟩, rfl⟩
    refine ⟨hoccurs, fun j hj => ?_⟩
    cases j with
    | zero => exact absurd hj h
    | succ j => exact Nat.succ_le_succ (hfirst j hj)

theorem indexFrom_eq_some_iff (offset : Nat) :
    indexFrom pattern text offset = some place ↔
      ∃ i, FirstAt pattern text i ∧ place = offset + i := by
  induction text generalizing offset with
  | nil =>
      have hnil (j : Nat) : OccursAt pattern [] j ↔ pattern = [] := by
        rw [OccursAt, List.drop_nil, List.prefix_nil]
      simp only [indexFrom, List.isEmpty_iff, Option.ite_none_right_eq_some, Option.some.injEq]
      constructor
      · rintro ⟨rfl, rfl⟩
        exact ⟨0, firstAt_zero ((hnil 0).mpr rfl), rfl⟩
      · rintro ⟨j, hj, rfl⟩
        have hpattern := (hnil j).mp hj.occurs
        have hzero := hj.first 0 ((hnil 0).mpr hpattern)
        exact ⟨hpattern, by omega⟩
  | cons c text ih =>
      by_cases hstart : OccursAt pattern (c :: text) 0
      · have hfront : startsWith (c :: text) pattern = true := List.isPrefixOf_iff_prefix.mpr hstart
        rw [indexFrom, if_pos hfront, Option.some.injEq]
        constructor
        · rintro rfl
          exact ⟨0, firstAt_zero hstart, rfl⟩
        · rintro ⟨j, hj, rfl⟩
          rw [hj.unique (firstAt_zero hstart), Nat.add_zero]
      · have hfront : ¬ startsWith (c :: text) pattern = true :=
          fun h => hstart (List.isPrefixOf_iff_prefix.mp h)
        rw [indexFrom, if_neg hfront, ih]
        constructor
        · rintro ⟨j, hj, rfl⟩
          exact ⟨j + 1, (firstAt_cons_iff hstart).mpr ⟨j, hj, rfl⟩, by omega⟩
        · rintro ⟨j, hj, rfl⟩
          obtain ⟨k, hk, rfl⟩ := (firstAt_cons_iff hstart).mp hj
          exact ⟨k, hk, by omega⟩

theorem index?_eq_some_iff : index? pattern text = some place ↔ FirstAt pattern text place := by
  rw [index?, indexFrom_eq_some_iff]
  constructor
  · rintro ⟨i, hi, rfl⟩
    rwa [Nat.zero_add]
  · exact fun h => ⟨place, h, (Nat.zero_add place).symm⟩

theorem occurs_eq_true_iff : occurs pattern text = true ↔ pattern <:+: text := by
  rw [occurs, Option.isSome_iff_exists]
  constructor
  · rintro ⟨place, hplace⟩
    have hoccurs := (index?_eq_some_iff.mp hplace).occurs
    exact hoccurs.isInfix.trans (List.drop_suffix place text).isInfix
  · rintro ⟨front, back, rfl⟩
    have hoccurs : OccursAt pattern (front ++ pattern ++ back) front.length := by
      rw [OccursAt, List.append_assoc, List.drop_left]
      exact List.prefix_append pattern back
    obtain ⟨place, _, hfirst⟩ := exists_firstAt hoccurs
    exact ⟨place, index?_eq_some_iff.mpr hfirst⟩

end ExtensionLint.Text
