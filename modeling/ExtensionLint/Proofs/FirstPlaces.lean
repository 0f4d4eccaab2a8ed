import Mathlib.Data.List.Basic
import Mathlib.Data.List.Induction
import Mathlib.Tactic.Tauto
import ExtensionLint.Rule

/-!
# The first places of items

A list without repetitions, in which each item of another list stands in the order of its first place
there.
-/

namespace ExtensionLint

variable {α : Type} [BEq α] [LawfulBEq α]

theorem firstPlaces_concat (items : List α) (a : α) :
    firstPlaces (items ++ [a]) =
      if a ∈ firstPlaces items then firstPlaces items else firstPlaces items ++ [a] := by
  simp [firstPlaces]

theorem mem_firstPlaces {items : List α} {a : α} : a ∈ firstPlaces items ↔ a ∈ items := by
  induction items using List.reverseRecOn with
  | nil => simp [firstPlaces]
  | append_singleton items b ih =>
      rw [firstPlaces_concat]
      split
      · rename_i hb
        have hmem : a = b → a ∈ firstPlaces items := fun h => h ▸ hb
        simp only [List.mem_append, List.mem_singleton, ← ih]
        tauto
      · simp [ih]

theorem pairwise_firstPlaces (items : List α) :
    (firstPlaces items).Pairwise fun a b => items.idxOf a < items.idxOf b := by
  induction items using List.reverseRecOn with
  | nil => simp [firstPlaces]
  | append_singleton items c ih =>
      -- an item at the end moves no first place before it
      have hkept {a : α} (ha : a ∈ firstPlaces items) :
          (items ++ [c]).idxOf a = items.idxOf a :=
        List.idxOf_append_of_mem (mem_firstPlaces.1 ha)
      have hold : (firstPlaces items).Pairwise fun a b =>
          (items ++ [c]).idxOf a < (items ++ [c]).idxOf b :=
        ih.imp_of_mem fun ha hb h => by rwa [hkept ha, hkept hb]
      rw [firstPlaces_concat]
      split
      · exact hold
      · rename_i hc
        rw [mem_firstPlaces] at hc
        refine List.pairwise_append.2 ⟨hold, List.pairwise_singleton _ _, ?_⟩
        intro a ha b hb
        rw [List.mem_singleton.1 hb, hkept ha, List.idxOf_append_of_notMem hc]
        have hlt := List.idxOf_lt_length_of_mem (mem_firstPlaces.1 ha)
        omega

theorem nodup_firstPlaces (items : List α) : (firstPlaces items).Nodup := by
  refine (pairwise_firstPlaces items).imp fun {a b} hlt => ?_
  exact ne_of_apply_ne (items.idxOf ·) (Nat.ne_of_lt hlt)

theorem firstPlaces_ne_nil {items : List α} (h : items ≠ []) : firstPlaces items ≠ [] := by
  obtain ⟨a, ha⟩ := List.exists_mem_of_ne_nil items h
  exact List.ne_nil_of_mem (mem_firstPlaces.2 ha)

end ExtensionLint
