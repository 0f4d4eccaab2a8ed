import Mathlib.Data.List.Perm.Basic
import ExtensionLint.Caching.Bounded

/-!
# Bounded caches as documented

A bounded cache with a place for every key never has to let two keys compete, and so it gives up nothing
before it is cleared (`documented_library`).
-/

namespace ExtensionLint.BoundedCache

open CacheLibrary (RoomForAll)

variable {κ ν ε : Type} [DecidableEq κ] {n : Nat} {c : BoundedCache κ ν n} {key : κ}

theorem get?_insert (hroom : RoomForAll κ n) (key : κ) (value : ν) (other : κ) :
    (c.insert key value).get? other = if other = key then some value else c.get? other := by
  have hn : n ≠ 0 := Nat.ne_of_gt (hroom [key] (by simp))
  rw [insert, if_neg hn]
  split
  next h => exact h ▸ Data.lookup_put_self ..
  next h => exact Data.lookup_put_of_ne h ..

theorem entries_place {later : List κ} (hroom : RoomForAll κ n) (hc : c.Seated (key :: later)) :
    (c.place key later).entries = c.entries := by
  unfold place
  split
  next => exact (rearranged_touch c key).entries_eq
  next h =>
    have hmem : key ∉ c.places := by simpa using h
    have hfree : c.places.length < n := hroom (key :: c.places) (List.nodup_cons.mpr ⟨hmem, hc.nodup⟩)
    rw [if_pos hfree]

theorem entries_placeAll {keys : List κ} (hroom : RoomForAll κ n) (hc : c.Seated keys) :
    (placeAll keys c).entries = c.entries := by
  induction keys generalizing c with
  | nil => rfl
  | cons key later ih => exact (ih hc.place).trans (entries_place hroom hc)

theorem entries_settle (hroom : RoomForAll κ n) (hc : c.Seated c.arrivals) :
    c.settle.entries = c.entries := by
  have hreckoned := rearranged_reckonAll c
  have hwaiting := (hreckoned.seated hc).mono fun _ => List.mem_reverse.mpr
  calc c.settle.entries
      = (placeAll c.arrivals.reverse c.reckonAll).entries := (rearranged_startCounting _).entries_eq
    _ = c.reckonAll.entries := entries_placeAll hroom hwaiting
    _ = c.entries := hreckoned.entries_eq

/-- Once tasks have been run, the places are those of the keys that are remembered. -/
theorem mem_places_settle (hc : c.Seated c.arrivals) :
    key ∈ c.settle.places ↔ c.settle.contains key := by
  refine ⟨fun h => ?_, fun h => (hc.settle.mem_or_mem key h).resolve_right List.not_mem_nil⟩
  rw [settle, vacate, List.mem_filter] at h
  exact h.2

theorem run_bind {σ α β : Type} (x : StateM σ α) (f : α → StateM σ β) (world : σ) :
    (x >>= f).run world = (f (x.run world).1).run (x.run world).2 := rfl

/-- What comes of a request for a value: it is held, or else its load fails or yields it. -/
theorem Sound.tryGetWith_cases {σ : Type} (s : Sound κ ν n) (key : κ) (load : StateM σ (Except ε ν))
    (world : σ) :
    let result := (s.tryGetWith key load).run world
    (∃ value, s.1.get? key = some value ∧ result = ((.ok value, s.request key), world)) ∨
    (∃ fault, s.1.get? key = none ∧ (load.run world).1 = .error fault ∧
      result = ((.error fault, s.request key), (load.run world).2)) ∨
    ∃ value, s.1.get? key = none ∧ (load.run world).1 = .ok value ∧
      result = ((.ok value, (s.request key).insert key value), (load.run world).2) := by
  intro result
  cases hget : s.1.get? key with
  | some value => exact .inl ⟨value, rfl, by simp only [result, tryGetWith, hget]; rfl⟩
  | none =>
      cases hload : (load.run world).1 with
      | error fault =>
          refine .inr (.inl ⟨fault, rfl, rfl, ?_⟩)
          simp only [result, tryGetWith, hget, run_bind, hload]
          rfl
      | ok value =>
          refine .inr (.inr ⟨value, rfl, rfl, ?_⟩)
          simp only [result, tryGetWith, hget, run_bind, hload]
          rfl

theorem documented_library : (library κ ν ε).Documented where
  holds_build _ _ := rfl
  containsKey_eq _ _ := rfl
  tryGetWith_of_held s key value load world h := by
    change ((s.tryGetWith key load).run world).1.1 = _ ∧ ((s.tryGetWith key load).run world).2 = _
    obtain ⟨value', hget, hresult⟩ | ⟨_, hget, -⟩ | ⟨_, hget, -⟩ :=
      s.tryGetWith_cases key load world
    · rw [hresult]
      exact ⟨congrArg _ (Option.some.inj (hget.symm.trans h)), rfl⟩
    · cases hget.symm.trans h
    · cases hget.symm.trans h
  tryGetWith_of_not_held s key load world h := by
    change ((s.tryGetWith key load).run world).1.1 = _ ∧ ((s.tryGetWith key load).run world).2 = _
    obtain ⟨_, hget, -⟩ | ⟨_, -, hload, hresult⟩ | ⟨_, -, hload, hresult⟩ :=
      s.tryGetWith_cases key load world
    · cases hget.symm.trans h
    · rw [hresult, hload]
      exact ⟨rfl, rfl⟩
    · rw [hresult, hload]
      exact ⟨rfl, rfl⟩
  holds_tryGetWith_ok s key value load world hroom h := by
    change ((s.tryGetWith key load).run world).1.1 = _ at h
    change ((s.tryGetWith key load).run world).1.2.1.get? key = _ ∧ ∀ other, other ≠ key →
      ((s.tryGetWith key load).run world).1.2.1.get? other = s.1.get? other
    obtain ⟨_, hget, hresult⟩ | ⟨_, -, -, hresult⟩ | ⟨_, -, -, hresult⟩ :=
      s.tryGetWith_cases key load world
    · rw [hresult] at h ⊢
      cases h
      exact ⟨hget, fun _ _ => rfl⟩
    · rw [hresult] at h
      cases h
    · rw [hresult] at h ⊢
      cases h
      exact ⟨(get?_insert hroom ..).trans (if_pos rfl),
        fun other hother => (get?_insert hroom ..).trans (if_neg hother)⟩
  holds_tryGetWith_error s key fault load world hroom h other := by
    change ((s.tryGetWith key load).run world).1.1 = _ at h
    change ((s.tryGetWith key load).run world).1.2.1.get? other = s.1.get? other
    obtain ⟨_, -, hresult⟩ | ⟨_, -, -, hresult⟩ | ⟨_, -, -, hresult⟩ :=
      s.tryGetWith_cases key load world
    · rw [hresult] at h
      cases h
    · rw [hresult]
      rfl
    · rw [hresult] at h
      cases h
  holds_get _ _ _ _ := rfl
  holds_invalidateAll _ _ := rfl
  holds_runPendingTasks s key hroom := congrArg (·.lookup key) (entries_settle hroom s.2)
  entryCount_runPendingTasks s keys hroom hkeys hmem := by
    have hsettled := s.2.settle
    refine ((List.perm_ext_iff_of_nodup hsettled.nodup hkeys).mpr fun key => ?_).length_eq
    rw [hmem, mem_places_settle s.2, contains_congr (entries_settle hroom s.2)]
    rfl

end ExtensionLint.BoundedCache
