/-! Finite maps as lists of entries with distinct keys, in the order in which keys first came. -/
namespace ExtensionLint.Data

variable {κ α : Type} [BEq κ]

/-- The map with a key set to a value: in its place if the key is known, else at the end. -/
def put (key : κ) (value : α) : List (κ × α) → List (κ × α)
  | [] => [(key, value)]
  | (k, v) :: es => if key == k then (k, value) :: es else (k, v) :: put key value es

/-- The map that entries with repeated keys stand for: the last value counts, at the first place. -/
def settled (entries : List (κ × α)) : List (κ × α) :=
  entries.foldl (fun es (k, v) => put k v es) []

theorem lookup_put_self [LawfulBEq κ] (key : κ) (value : α) (es : List (κ × α)) :
    (put key value es).lookup key = some value := by
  induction es with
  | nil => simp [put]
  | cons e es ih =>
    obtain ⟨k, v⟩ := e
    by_cases h : key = k
    · simp [put, h]
    · simp [put, List.lookup_cons, beq_eq_false_iff_ne.2 h, ih]

theorem lookup_put_of_ne [LawfulBEq κ] {key k : κ} (h : k ≠ key) (value : α) (es : List (κ × α)) :
    (put key value es).lookup k = es.lookup k := by
  have hk : (k == key) = false := beq_eq_false_iff_ne.2 h
  induction es with
  | nil => simp [put, List.lookup_cons, hk]
  | cons e es ih =>
    obtain ⟨k', v⟩ := e
    by_cases he : key = k'
    · subst he; simp [put, List.lookup_cons, hk]
    · simp [put, List.lookup_cons, beq_eq_false_iff_ne.2 he, ih]

theorem lookup_filter_ne [LawfulBEq κ] [DecidableEq κ] (key other : κ) (es : List (κ × α)) :
    (es.filter (·.1 ≠ key)).lookup other = if other = key then none else es.lookup other := by
  induction es with
  | nil => simp
  | cons e es ih =>
      obtain ⟨k, v⟩ := e
      by_cases hk : k = key
      · subst hk
        rw [List.filter_cons_of_neg (by simp), ih]
        by_cases ho : other = k
        · simp [ho]
        · simp [ho, List.lookup_cons, beq_eq_false_iff_ne.2 ho]
      · rw [List.filter_cons_of_pos (by simpa using hk), List.lookup_cons, List.lookup_cons, ih]
        by_cases ho : other = k
        · subst ho
          simp [hk]
        · simp [beq_eq_false_iff_ne.2 ho]

end ExtensionLint.Data
