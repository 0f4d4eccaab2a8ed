import ExtensionLint.Path

/-!
# Paths below a directory

A path that is joined with the name of an entry has that name as one more piece and one more component.
Listings go by components, which are ordered like words over an ordered alphabet.
-/

namespace ExtensionLint.Path

/-- What an entry of a directory can be called. -/
structure IsName (text : String) : Prop where
  ne_empty : text ≠ ""
  ne_current : text ≠ "."
  ne_parent : text ≠ ".."
  no_slash : '/' ∉ text.toList

instance (text : String) : Decidable (IsName text) :=
  decidable_of_iff (text ≠ "" ∧ text ≠ "." ∧ text ≠ ".." ∧ '/' ∉ text.toList)
    ⟨fun ⟨hempty, hcurrent, hparent, hslash⟩ => ⟨hempty, hcurrent, hparent, hslash⟩,
      fun ⟨hempty, hcurrent, hparent, hslash⟩ => ⟨hempty, hcurrent, hparent, hslash⟩⟩

/-! ## Pieces -/

theorem cut_ne_nil (s piece : List Char) (done : List String) : cut s piece done ≠ [] := by
  induction s generalizing piece done with
  | nil => simp [cut]
  | cons c s ih =>
      unfold cut
      split
      · exact ih _ _
      · exact ih _ _

theorem cut_done (s piece : List Char) (done : List String) :
    cut s piece done = done.reverse ++ cut s piece [] := by
  induction s generalizing piece done with
  | nil => simp [cut]
  | cons c s ih =>
      by_cases h : c = '/'
      · simp only [cut, h, beq_self_eq_true, if_true]
        rw [ih [] (_ :: done), ih [] [_]]
        simp
      · simp only [cut, beq_iff_eq, h, if_false]
        exact ih (c :: piece) done

theorem cut_append_slash (s t piece : List Char) :
    cut (s ++ '/' :: t) piece [] = cut s piece [] ++ cut t [] [] := by
  induction s generalizing piece with
  | nil => simp only [List.nil_append, cut, beq_self_eq_true, if_true]; exact cut_done ..
  | cons c s ih =>
      by_cases h : c = '/'
      · simp only [List.cons_append, cut, h, beq_self_eq_true, if_true]
        rw [cut_done _ _ [_], cut_done s _ [_], ih, List.append_assoc]
      · simp only [List.cons_append, cut, beq_iff_eq, h, if_false]
        exact ih (c :: piece)

theorem cut_of_no_slash {s : List Char} (h : '/' ∉ s) (piece : List Char) :
    cut s piece [] = [String.ofList (piece.reverse ++ s)] := by
  induction s generalizing piece with
  | nil => simp [cut]
  | cons c s ih =>
      rw [List.mem_cons, not_or] at h
      simp only [cut, beq_iff_eq, Ne.symm h.1, if_false]
      simpa using ih h.2 (c :: piece)

theorem pieces_of_no_slash {name : String} (h : '/' ∉ name.toList) : pieces name = [name] := by
  simpa [pieces] using cut_of_no_slash h []

theorem pieces_slash (dir name : String) :
    pieces (dir ++ "/" ++ name) = pieces dir ++ pieces name := by
  have hslash : (dir ++ "/" ++ name).toList = dir.toList ++ '/' :: name.toList := by simp
  rw [pieces, hslash, cut_append_slash]
  rfl

theorem pieces_ne_nil (path : String) : pieces path ≠ [] := cut_ne_nil _ _ _

theorem pieces_empty : pieces "" = [""] := pieces_of_no_slash (by simp)

theorem eq_empty_of_pieces {path : String} (h : pieces path = [""]) : path = "" := by
  by_cases hslash : '/' ∈ path.toList
  · obtain ⟨s, t, hst⟩ := List.append_of_mem hslash
    rw [pieces, hst, cut_append_slash] at h
    have hlength := congrArg List.length h
    have hs := List.length_pos_iff.mpr (cut_ne_nil s [] [])
    have ht := List.length_pos_iff.mpr (cut_ne_nil t [] [])
    rw [List.length_append, List.length_singleton] at hlength
    omega
  · rw [pieces_of_no_slash hslash, List.singleton_inj] at h
    exact h

theorem exists_of_endsWith {dir : String} (h : dir.endsWith "/" = true) :
    ∃ stem, dir = stem ++ "/" := by
  rw [← String.endsWith_toSlice, String.Slice.endsWith_string_iff, String.copy_toSlice] at h
  obtain ⟨stem, hstem⟩ := h
  exact ⟨String.ofList stem, String.toList_inj.mp (by simp [← hstem])⟩

variable {dir name : String}

theorem IsName.not_startsWith (h : IsName name) : ¬ name.startsWith "/" = true := by
  rw [String.startsWith_string_iff]
  rintro ⟨t, ht⟩
  exact h.no_slash (ht ▸ by simp)

/-- The name of an entry becomes the last piece. Where the directory is spelled with a slash at its end,
it takes the place of the empty piece after that slash. -/
theorem pieces_join (hdir : dir ≠ "") (hname : IsName name) : ∃ stem, stem ≠ [] ∧
    (pieces dir = stem ∧ stem ≠ [""] ∨ pieces dir = stem ++ [""]) ∧
      pieces (join dir name) = stem ++ [name] := by
  have hpieces := pieces_of_no_slash hname.no_slash
  unfold join
  rw [if_neg hname.not_startsWith]
  split
  · rename_i h
    obtain ⟨stem, rfl⟩ := exists_of_endsWith (h.resolve_left hdir)
    refine ⟨pieces stem, pieces_ne_nil stem, .inr ?_, ?_⟩
    · simpa [pieces_empty] using pieces_slash stem ""
    · rw [pieces_slash, hpieces]
  · exact ⟨pieces dir, pieces_ne_nil dir, .inl ⟨rfl, fun h => hdir (eq_empty_of_pieces h)⟩,
      by rw [pieces_slash, hpieces]⟩

theorem join_eq (hdir : dir ≠ "") (hend : dir.endsWith "/" = false) (hname : IsName name) :
    join dir name = dir ++ "/" ++ name := by
  unfold join
  rw [if_neg hname.not_startsWith, if_neg (by simp [hdir, hend])]

theorem join_ne_empty (hname : IsName name) : join dir name ≠ "" := by
  unfold join
  rw [if_neg hname.not_startsWith]
  split <;> simp [hname.ne_empty]

theorem utf8ByteSize_le_join (hname : IsName name) :
    dir.utf8ByteSize ≤ (join dir name).utf8ByteSize := by
  unfold join
  rw [if_neg hname.not_startsWith]
  split
  · simp
  · simp only [String.utf8ByteSize_append]
    omega

theorem contains_join {c : Char} (hname : IsName name) (h : dir.contains c = true) :
    (join dir name).contains c = true := by
  rw [String.contains_char_eq, decide_eq_true_iff] at h ⊢
  unfold join
  rw [if_neg hname.not_startsWith]
  split <;> simp [h]

/-! ## Components -/

theorem IsName.component? (h : IsName name) : component? name = some (.name name) := by
  simp [Path.component?, h.ne_empty, h.ne_current, h.ne_parent]

/-- The component that tells where a path starts, by its pieces. -/
def start : List String → List Component
  | "" :: _ :: _ => [.root]
  | "." :: _ => [.current]
  | _ => []

theorem components_eq (path : String) :
    components path = start (pieces path) ++ (pieces path).filterMap component? := by
  unfold components start
  dsimp only
  split <;> simp_all

/-- Where a path starts does not depend on its last piece, unless that is the only one. -/
theorem start_concat (stem : List String) (hstem : stem ≠ []) (p q : String) :
    start (stem ++ [p]) = start (stem ++ [q]) := by
  -- two pieces tell where a path starts
  match stem with
  | [a] => by_cases ha : a = "" <;> by_cases hb : a = "." <;> simp_all [start]
  | a :: b :: stem => by_cases ha : a = "" <;> by_cases hb : a = "." <;> simp_all [start]

theorem start_append_singleton {stem : List String} (hstem : stem ≠ []) (hempty : stem ≠ [""])
    (p : String) : start (stem ++ [p]) = start stem := by
  match stem with
  | [a] => by_cases hb : a = "." <;> simp_all [start]
  | a :: b :: stem => by_cases ha : a = "" <;> by_cases hb : a = "." <;> simp_all [start]

theorem components_join (hdir : dir ≠ "") (hname : IsName name) :
    components (join dir name) = components dir ++ [.name name] := by
  obtain ⟨stem, hstem, hpieces, hjoin⟩ := pieces_join hdir hname
  have hlast : [name].filterMap component? = [.name name] := by simp [hname.component?]
  rw [components_eq, components_eq, hjoin, List.filterMap_append, hlast, ← List.append_assoc]
  rcases hpieces with ⟨h, hempty⟩ | h
  · rw [h, start_append_singleton hstem hempty]
  · rw [h, start_concat stem hstem name "", List.filterMap_append]
    simp [component?]

/-! ## The order of listings -/

/-- The text of a component that is a name. -/
def Component.text : Component → String
  | .name text => text
  | _ => ""

theorem Component.compare_eq :
    Component.compare = compareLex (compareOn Component.rank) (compareOn Component.text) := by
  funext a b
  cases a <;> cases b <;> rfl

instance : Std.TransCmp Component.compare :=
  Component.compare_eq ▸ inferInstance

theorem Component.eq_of_compare {a b : Component} (h : a.compare b = .eq) : a = b := by
  cases a <;> cases b <;> simp_all [Component.compare, Component.rank]

theorem compareComponents_eq : compareComponents = List.compareLex Component.compare := by
  funext as bs
  induction as generalizing bs with
  | nil => cases bs <;> rfl
  | cons a as ih =>
      cases bs with
      | nil => rfl
      | cons b bs => rw [compareComponents, ih, List.compareLex_cons_cons]

theorem eq_of_compareComponents {as bs : List Component} (h : compareComponents as bs = .eq) :
    as = bs := by
  induction as generalizing bs with
  | nil => cases bs <;> simp_all [compareComponents]
  | cons a as ih =>
      cases bs with
      | nil => simp [compareComponents] at h
      | cons b bs =>
          rw [compareComponents, Ordering.then_eq_eq] at h
          rw [Component.eq_of_compare h.1, ih h.2]

theorem compareComponents_swap (as bs : List Component) :
    compareComponents as bs = (compareComponents bs as).swap := by
  rw [compareComponents_eq]
  exact Std.OrientedCmp.eq_swap

/-- A path comes before another one in listings. -/
def Precedes (a b : String) : Prop := compareComponents (components a) (components b) = .lt

theorem Precedes.asymm {a b : String} (h : Precedes a b) : ¬ Precedes b a := by
  intro h'
  unfold Precedes at h h'
  rw [compareComponents_swap, h'] at h
  cases h

theorem not_precedes_self (a : String) : ¬ Precedes a a := fun h => h.asymm h

theorem listedBefore_eq (a b : String) :
    listedBefore a b = (List.compareLex Component.compare (components a) (components b)).isLE := by
  rw [listedBefore, compareComponents_eq]
  cases List.compareLex Component.compare (components a) (components b) <;> rfl

theorem pairwise_listedBefore_sort (paths : List String) :
    (sort paths).Pairwise fun a b => listedBefore a b = true := by
  refine List.pairwise_mergeSort ?_ ?_ paths
  · intro a b c hab hbc
    rw [listedBefore_eq] at hab hbc ⊢
    exact Std.TransCmp.isLE_trans hab hbc
  · intro a b
    rw [listedBefore, listedBefore, compareComponents_swap (components a)]
    cases compareComponents (components b) (components a) <;> rfl

theorem mem_sort {paths : List String} {path : String} : path ∈ sort paths ↔ path ∈ paths :=
  (List.mergeSort_perm paths _).mem_iff

/-- Paths of different components are listed in strictly increasing order. -/
theorem pairwise_precedes_sort {paths : List String} (h : (paths.map components).Nodup) :
    (sort paths).Pairwise Precedes := by
  have hnodup : ((sort paths).map components).Nodup :=
    ((List.mergeSort_perm paths _).map components).nodup_iff.mpr h
  refine ((pairwise_listedBefore_sort paths).and (List.pairwise_map.mp hnodup)).imp ?_
  rintro a b ⟨hle, hne⟩
  unfold listedBefore at hle
  unfold Precedes
  -- what is equal in the order has the same components
  cases hcompare : compareComponents (components a) (components b) with
  | lt => rfl
  | eq => exact absurd (eq_of_compareComponents hcompare) hne
  | gt => simp [hcompare] at hle

end ExtensionLint.Path
