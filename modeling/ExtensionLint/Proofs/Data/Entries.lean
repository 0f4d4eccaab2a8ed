import Mathlib.Data.List.Forall2
import ExtensionLint.Data.Entries
import ExtensionLint.Data.Value

/-!
# Entries under distinct keys

Where no key comes twice, it does not matter how an entry is looked for: the first one, the only one and
the one that counts in the end are the same, and reading the entries one by one keeps each under its key.
-/

namespace ExtensionLint.Data

mutual
/-- Whether no table in the value has a key twice. -/
def hasDistinctKeys : Value → Bool
  | .list vs => haveDistinctKeys vs
  | .table es => (es.map Prod.fst).Nodup && entriesHaveDistinctKeys es
  | _ => true

def haveDistinctKeys : List Value → Bool
  | [] => true
  | v :: vs => hasDistinctKeys v && haveDistinctKeys vs

def entriesHaveDistinctKeys : List (String × Value) → Bool
  | [] => true
  | (_, v) :: es => hasDistinctKeys v && entriesHaveDistinctKeys es
end

theorem entriesHaveDistinctKeys_iff {es : List (String × Value)} :
    entriesHaveDistinctKeys es = true ↔ ∀ e ∈ es, hasDistinctKeys e.2 = true := by
  induction es with
  | nil => simp [entriesHaveDistinctKeys]
  | cons e es ih => rw [entriesHaveDistinctKeys, Bool.and_eq_true, ih, List.forall_mem_cons]

theorem hasDistinctKeys_table_iff {es : List (String × Value)} :
    hasDistinctKeys (.table es) = true ↔
      (es.map Prod.fst).Nodup ∧ ∀ e ∈ es, hasDistinctKeys e.2 = true := by
  rw [hasDistinctKeys, Bool.and_eq_true, decide_eq_true_iff, entriesHaveDistinctKeys_iff]

variable {α β : Type} {es : List (String × α)} {key : String}

theorem lookup_eq_none_of_not_mem (h : key ∉ es.map Prod.fst) : es.lookup key = none := by
  rw [List.lookup_eq_none_iff]
  intro e he
  exact bne_iff_ne.mpr fun hkey => h (hkey ▸ List.mem_map_of_mem he)

theorem mem_of_lookup {a : α} (h : es.lookup key = some a) : (key, a) ∈ es := by
  obtain ⟨before, after, rfl, -⟩ := List.lookup_eq_some_iff.mp h
  simp

theorem lookup_eq_some_iff_mem {a : α} (h : (es.map Prod.fst).Nodup) :
    es.lookup key = some a ↔ (key, a) ∈ es := by
  refine ⟨mem_of_lookup, fun hmem => ?_⟩
  obtain ⟨before, after, rfl⟩ := List.append_of_mem hmem
  refine List.lookup_eq_some_iff.mpr ⟨before, after, rfl, fun e he => bne_iff_ne.mpr ?_⟩
  rw [List.map_append, List.nodup_append] at h
  exact (h.2.2 e.1 (List.mem_map_of_mem he) key (by simp)).symm

theorem put_of_not_mem (h : key ∉ es.map Prod.fst) (a : α) : put key a es = es ++ [(key, a)] := by
  induction es with
  | nil => rfl
  | cons e es ih =>
    rw [List.map_cons, List.mem_cons, not_or] at h
    rw [put, if_neg (by simpa using h.1), ih h.2, List.cons_append]

theorem settled_of_nodup (h : (es.map Prod.fst).Nodup) : settled es = es := by
  -- what is set already has none of the keys that come
  suffices hfold : ∀ (es done : List (String × α)), ((done ++ es).map Prod.fst).Nodup →
      es.foldl (fun es (k, v) => put k v es) done = done ++ es by
    simpa [settled] using hfold es [] h
  intro es
  induction es with
  | nil => simp
  | cons e es ih =>
    intro done hkeys
    have hnew : e.1 ∉ done.map Prod.fst := by
      rw [List.map_append, List.map_cons, List.nodup_append] at hkeys
      exact fun hmem => hkeys.2.2 e.1 hmem e.1 List.mem_cons_self rfl
    rw [List.foldl_cons]
    dsimp only
    rw [put_of_not_mem hnew, ih _ (by simpa using hkeys)]
    simp

theorem under_of_nodup {es : List (String × Value)} (h : (es.map Prod.fst).Nodup) (key : String) :
    Value.under key es = (es.lookup key).toList := by
  induction es with
  | nil => rfl
  | cons e es ih =>
    obtain ⟨k, v⟩ := e
    rw [List.map_cons, List.nodup_cons] at h
    by_cases hk : k = key
    · subst hk
      have hrest : Value.under k es = [] := by
        rw [ih h.2, lookup_eq_none_of_not_mem h.1, Option.toList_none]
      rw [List.lookup_cons_self, Option.toList_some, ← hrest]
      simp [Value.under]
    · have hlookup : ((k, v) :: es).lookup key = es.lookup key := by
        rw [List.lookup_cons, beq_eq_false_iff_ne.mpr (Ne.symm hk)]
      rw [hlookup, ← ih h.2]
      simp [Value.under, hk]

theorem sole?_of_nodup {es : List (String × Value)} (h : (es.map Prod.fst).Nodup) (key : String) :
    Value.sole? key es = some (es.lookup key) := by
  rw [Value.sole?, under_of_nodup h]
  cases es.lookup key <;> rfl

/-! ## Reading one by one -/

section Items

variable {α β γ ε : Type} {items : List α} {results : List β}

/-- A reading that may fail takes each item to its result. -/
theorem mapM_eq_some_iff {f : α → Option β} :
    items.mapM f = some results ↔ List.Forall₂ (fun a b => f a = some b) items results := by
  induction items generalizing results with
  | nil => simp [eq_comm]
  | cons a items ih =>
    simp only [List.mapM_cons, List.forall₂_cons_left_iff, ← ih, Option.bind_eq_bind,
      Option.bind_eq_some_iff, Option.pure_def, Option.some.injEq]
    constructor
    · rintro ⟨b, hb, bs, hbs, rfl⟩
      exact ⟨b, bs, hb, hbs, rfl⟩
    · rintro ⟨b, bs, hb, hbs, rfl⟩
      exact ⟨b, hb, bs, hbs, rfl⟩

theorem bind_eq_ok_iff {x : Except ε α} {f : α → Except ε β} {b : β} :
    x >>= f = .ok b ↔ ∃ a, x = .ok a ∧ f a = .ok b := by
  cases x <;> simp [bind, Except.bind]

theorem bind_eq_error_iff {x : Except ε α} {f : α → Except ε β} {fault : ε} :
    x >>= f = .error fault ↔ x = .error fault ∨ ∃ a, x = .ok a ∧ f a = .error fault := by
  cases x <;> simp [bind, Except.bind]

theorem mapError_eq_ok_iff {ε' : Type} {x : Except ε α} {f : ε → ε'} {a : α} :
    x.mapError f = .ok a ↔ x = .ok a := by
  cases x <;> simp [Except.mapError]

theorem mapM_eq_ok_iff {f : α → Except ε β} :
    items.mapM f = .ok results ↔ List.Forall₂ (fun a b => f a = .ok b) items results := by
  induction items generalizing results with
  | nil => simp [pure, Except.pure, eq_comm]
  | cons a items ih =>
    simp only [List.mapM_cons, List.forall₂_cons_left_iff, ← ih, bind_eq_ok_iff, pure, Except.pure,
      Except.ok.injEq]
    constructor
    · rintro ⟨b, hb, bs, hbs, rfl⟩
      exact ⟨b, bs, hb, hbs, rfl⟩
    · rintro ⟨b, bs, hb, hbs, rfl⟩
      exact ⟨b, hb, bs, hbs, rfl⟩

theorem exists_forall₂_iff {R : α → β → Prop} :
    (∃ results, List.Forall₂ R items results) ↔ ∀ a ∈ items, ∃ b, R a b := by
  induction items with
  | nil => simp
  | cons a items ih =>
    rw [List.forall_mem_cons, ← ih]
    constructor
    · rintro ⟨results, h⟩
      cases h with
      | cons hb hbs => exact ⟨⟨_, hb⟩, _, hbs⟩
    · rintro ⟨⟨b, hb⟩, bs, hbs⟩
      exact ⟨b :: bs, .cons hb hbs⟩

theorem filterMap_eq_of_forall₂ {R : α → β → Prop} {f : α → Option γ} {g : β → Option γ}
    (h : List.Forall₂ R items results) (hfg : ∀ a b, R a b → g b = f a) :
    results.filterMap g = items.filterMap f := by
  induction h with
  | nil => rfl
  | cons hb _ ih => rw [List.filterMap_cons, List.filterMap_cons, hfg _ _ hb, ih]

end Items

variable (read : String → α → Option β)

/-- The entries that say something, each under its key. -/
def readEntries (es : List (String × α)) : List (String × β) :=
  es.filterMap fun e => (read e.1 e.2).map (e.1, ·)

variable {read}

theorem mem_readEntries {b : β} :
    (key, b) ∈ readEntries read es ↔ ∃ a, (key, a) ∈ es ∧ read key a = some b := by
  simp only [readEntries, List.mem_filterMap, Option.map_eq_some_iff, Prod.mk.injEq, Prod.exists]
  constructor
  · rintro ⟨k, a, hmem, b', hread, rfl, rfl⟩
    exact ⟨a, hmem, hread⟩
  · rintro ⟨a, hmem, hread⟩
    exact ⟨key, a, hmem, b, hread, rfl, rfl⟩

theorem nodup_readEntries (h : (es.map Prod.fst).Nodup) : ((readEntries read es).map Prod.fst).Nodup := by
  refine h.sublist ?_
  induction es with
  | nil => exact List.Sublist.refl []
  | cons e es ih =>
    have hrest := ih (List.nodup_cons.mp h).2
    cases hread : read e.1 e.2 with
    | none => simpa [readEntries, hread] using hrest.cons e.1
    | some b => simpa [readEntries, hread] using hrest.cons_cons e.1

theorem lookup_readEntries (h : (es.map Prod.fst).Nodup) :
    (readEntries read es).lookup key = (es.lookup key).bind (read key) := by
  refine Option.ext fun b => ?_
  rw [lookup_eq_some_iff_mem (nodup_readEntries h), mem_readEntries, Option.bind_eq_some_iff]
  exact exists_congr fun a => and_congr_left fun _ => (lookup_eq_some_iff_mem h).symm

/-- Reading all values of a table, each under its key. -/
theorem mapM_entries_eq_some_iff {read : α → Option β} {found : List (String × β)} :
    (es.mapM fun e => (read e.2).map fun b => (e.1, b)) = some found ↔
      (∀ e ∈ es, ∃ b, read e.2 = some b) ∧ readEntries (fun _ => read) es = found := by
  induction es generalizing found with
  | nil => simp [readEntries]
  | cons e es ih =>
    rw [List.mapM_cons, List.forall_mem_cons, readEntries, List.filterMap_cons]
    cases hread : read e.2 with
    | none => simp
    | some b =>
      simp only [Option.map_some, Option.bind_eq_bind, Option.bind_some, Option.bind_eq_some_iff,
        ih, Option.pure_def, Option.some.injEq, readEntries]
      constructor
      · rintro ⟨rest, ⟨hall, rfl⟩, rfl⟩
        exact ⟨⟨⟨b, rfl⟩, hall⟩, rfl⟩
      · rintro ⟨⟨-, hall⟩, rfl⟩
        exact ⟨_, ⟨hall, rfl⟩, rfl⟩

end ExtensionLint.Data
