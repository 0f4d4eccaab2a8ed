import Mathlib.Data.List.Forall2
import Mathlib.Data.List.Nodup
import ExtensionLint.Proofs.FirstPlaces
import ExtensionLint.Proofs.Manifest.Conformance

/-!
# The children of an element, by name and number

Each problem with the children of an element is reported once. What the keys of a ruleset want comes
first, in the order of the keys; then come the names of the children, in the order of their first
appearance; then the empty children (`childFindings_once`).
-/

namespace ExtensionLint.Manifest

open Markup

variable {rules : List ChildRule} {e : Element} {name : String} {d : Diagnostic} {mode : ChildMode}

/-! ## Keys and problems -/

/-- How many keys for elements of the name have the mode. -/
def keyCount (rules : List ChildRule) (name : String) (mode : ChildMode) : Nat :=
  rules.countP fun rule => rule.key.element = name ∧ rule.mode = mode

/-- The mode of the last key for elements of the name. -/
def lastMode? (rules : List ChildRule) (name : String) : Option ChildMode :=
  ((rules.filter (·.key.element = name)).getLast?).map (·.mode)

/-- A key for elements of the name has the mode. -/
def HasMode (rules : List ChildRule) (name : String) (mode : ChildMode) : Prop :=
  ∃ rule ∈ rules, rule.key.element = name ∧ rule.mode = mode

instance : Decidable (HasMode rules name mode) :=
  inferInstanceAs (Decidable (∃ rule ∈ rules, rule.key.element = name ∧ rule.mode = mode))

/-- What can be wrong with a key that wants one child. -/
inductive KeyProblem (e : Element) (rule : ChildRule) : Diagnostic → Prop
  | missing (hmode : rule.mode = .requiredSingle) (hcount : e.count rule.key.element = 0) :
    KeyProblem e rule (.error (.missingRequired e.name rule.key.element))
  | repeated (hmode : rule.mode = .requiredSingle) (hcount : 1 < e.count rule.key.element) :
    KeyProblem e rule (.error (.multipleFound e.name rule.key.element))
  | leftOut (hmode : rule.mode = .recommendedSingle) (hcount : e.count rule.key.element = 0) :
    KeyProblem e rule (.notice (.missingOptional e.name rule.key.element))
  | doubled (hmode : rule.mode = .recommendedSingle) (hcount : 1 < e.count rule.key.element) :
    KeyProblem e rule (.warning (.multipleFound e.name rule.key.element))

/-- What can be wrong with the children of one name. -/
inductive NameProblem (rules : List ChildRule) (e : Element) (name : String) : Diagnostic → Prop
  | unknown (hmode : lastMode? rules name = none) (hcount : 0 < e.count name) :
    NameProblem rules e name (.notice (.unknownChild e.name name))
  | repeated (hmode : lastMode? rules name = some .optionalSingle) (hcount : 1 < e.count name) :
    NameProblem rules e name (.error (.multipleFound e.name name))

theorem multiplicityFinding?_eq_some_iff {rule : ChildRule} :
    multiplicityFinding? e rule = some d ↔ KeyProblem e rule d := by
  constructor
  · intro h
    simp only [multiplicityFinding?] at h
    -- the last pattern of a mode stands for all numbers but the two that come before it
    split at h <;> cases h
    · exact .missing ‹_› ‹_›
    · rename_i hzero hone
      exact .repeated ‹_› (Nat.one_lt_iff_ne_zero_and_ne_one.mpr ⟨hzero, hone⟩)
    · exact .leftOut ‹_› ‹_›
    · rename_i hzero hone
      exact .doubled ‹_› (Nat.one_lt_iff_ne_zero_and_ne_one.mpr ⟨hzero, hone⟩)
  · intro h
    cases h with
    | missing hmode hcount | leftOut hmode hcount => simp only [multiplicityFinding?, hmode, hcount]
    | repeated hmode hcount | doubled hmode hcount =>
        obtain ⟨n, hn⟩ := Nat.exists_eq_add_of_le' hcount
        simp only [multiplicityFinding?, hmode, hn]

theorem keyProblem_missing_iff {rule : ChildRule} :
    KeyProblem e rule (.error (.missingRequired e.name name)) ↔
      (rule.key.element = name ∧ rule.mode = .requiredSingle) ∧ e.count name = 0 := by
  constructor
  · intro h
    cases h with
    | missing hmode hcount => exact ⟨⟨rfl, hmode⟩, hcount⟩
  · rintro ⟨⟨rfl, hmode⟩, hcount⟩
    exact .missing hmode hcount

theorem keyProblem_repeated_iff {rule : ChildRule} :
    KeyProblem e rule (.error (.multipleFound e.name name)) ↔
      (rule.key.element = name ∧ rule.mode = .requiredSingle) ∧ 1 < e.count name := by
  constructor
  · intro h
    cases h with
    | repeated hmode hcount => exact ⟨⟨rfl, hmode⟩, hcount⟩
  · rintro ⟨⟨rfl, hmode⟩, hcount⟩
    exact .repeated hmode hcount

theorem keyProblem_leftOut_iff {rule : ChildRule} :
    KeyProblem e rule (.notice (.missingOptional e.name name)) ↔
      (rule.key.element = name ∧ rule.mode = .recommendedSingle) ∧ e.count name = 0 := by
  constructor
  · intro h
    cases h with
    | leftOut hmode hcount => exact ⟨⟨rfl, hmode⟩, hcount⟩
  · rintro ⟨⟨rfl, hmode⟩, hcount⟩
    exact .leftOut hmode hcount

theorem keyProblem_doubled_iff {rule : ChildRule} :
    KeyProblem e rule (.warning (.multipleFound e.name name)) ↔
      (rule.key.element = name ∧ rule.mode = .recommendedSingle) ∧ 1 < e.count name := by
  constructor
  · intro h
    cases h with
    | doubled hmode hcount => exact ⟨⟨rfl, hmode⟩, hcount⟩
  · rintro ⟨⟨rfl, hmode⟩, hcount⟩
    exact .doubled hmode hcount

theorem nameProblem_unknown_iff {x : String} :
    NameProblem rules e x (.notice (.unknownChild e.name name)) ↔
      x = name ∧ 0 < e.count name ∧ lastMode? rules name = none := by
  constructor
  · intro h
    cases h with
    | unknown hmode hcount => exact ⟨rfl, hcount, hmode⟩
  · rintro ⟨rfl, hcount, hmode⟩
    exact .unknown hmode hcount

theorem nameProblem_repeated_iff {x : String} :
    NameProblem rules e x (.error (.multipleFound e.name name)) ↔
      x = name ∧ 1 < e.count name ∧ lastMode? rules name = some .optionalSingle := by
  constructor
  · intro h
    cases h with
    | repeated hmode hcount => exact ⟨rfl, hcount, hmode⟩
  · rintro ⟨rfl, hcount, hmode⟩
    exact .repeated hmode hcount

theorem resolve?_mode (rules : List ChildRule) (name : String) :
    ((ChildRules.declared rules).resolve? name).map (·.mode) = lastMode? rules name := by
  rw [lastMode?, List.getLast?_filter]
  rfl

theorem nameFinding?_eq_some_iff (hpresent : 0 < e.count name) :
    nameFinding? (.declared rules) e name = some d ↔ NameProblem rules e name d := by
  have hmode := resolve?_mode rules name
  unfold nameFinding?
  cases hrule : (ChildRules.declared rules).resolve? name with
  | none =>
      rw [hrule] at hmode
      constructor
      · rintro ⟨⟩
        exact .unknown hmode.symm hpresent
      · rintro (_ | ⟨hrepeated, _⟩)
        · rfl
        · cases hmode.trans hrepeated
  | some rule =>
      rw [hrule] at hmode
      simp only [Option.ite_none_right_eq_some, Option.some.injEq]
      constructor
      · rintro ⟨⟨hoptional, hcount⟩, rfl⟩
        exact .repeated (hoptional ▸ hmode.symm) hcount
      · rintro (⟨hunknown, _⟩ | ⟨hrepeated, hcount⟩)
        · cases hmode.trans hunknown
        · exact ⟨⟨Option.some.inj (hmode.trans hrepeated), hcount⟩, rfl⟩

/-! ## Names -/

theorem childNames_eq_firstPlaces (e : Element) :
    childNames e = firstPlaces (e.children.map Element.name) := by
  rw [firstPlaces, List.foldl_map]
  rfl

theorem count_pos_iff : 0 < e.count name ↔ name ∈ childNames e := by
  rw [mem_childNames, Element.count, List.length_pos_iff_exists_mem, List.mem_map]
  simp only [Element.childrenNamed, List.mem_filter, decide_eq_true_eq]

theorem nodup_childNames (e : Element) : (childNames e).Nodup := by
  rw [childNames_eq_firstPlaces]
  refine (pairwise_firstPlaces _).imp ?_
  rintro name _ hlt rfl
  exact Nat.lt_irrefl _ hlt

/-! ## Counting -/

theorem countP_and_right {α : Type} (p : α → Prop) [DecidablePred p] (q : Prop) [Decidable q]
    (items : List α) :
    items.countP (fun a => p a ∧ q) = if q then items.countP (fun a => p a) else 0 := by
  by_cases hq : q <;> simp [hq]

theorem count_filterMap_multiplicityFinding? {q : Prop} [Decidable q]
    (h : ∀ rule, KeyProblem e rule d ↔ (rule.key.element = name ∧ rule.mode = mode) ∧ q) :
    (rules.filterMap (multiplicityFinding? e)).count d = if q then keyCount rules name mode else 0 := by
  rw [List.count_filterMap, keyCount, ← countP_and_right]
  refine List.countP_congr fun rule _ => ?_
  rw [beq_iff_eq, multiplicityFinding?_eq_some_iff, h rule, decide_eq_true_eq]

theorem count_filterMap_multiplicityFinding?_eq_zero (h : ∀ rule, ¬ KeyProblem e rule d) :
    (rules.filterMap (multiplicityFinding? e)).count d = 0 := by
  rw [List.count_filterMap, List.countP_eq_zero]
  intro rule _ hd
  exact h rule (multiplicityFinding?_eq_some_iff.mp (beq_iff_eq.mp hd))

theorem count_filterMap_nameFinding? {q : Prop} [Decidable q]
    (h : ∀ x, NameProblem rules e x d ↔ x = name ∧ q) (hpresent : q → 0 < e.count name) :
    ((childNames e).filterMap (nameFinding? (.declared rules) e)).count d = if q then 1 else 0 := by
  have hcount : ((childNames e).filterMap (nameFinding? (.declared rules) e)).count d =
      (childNames e).countP fun x => x = name ∧ q := by
    rw [List.count_filterMap]
    refine List.countP_congr fun x hx => ?_
    rw [beq_iff_eq, nameFinding?_eq_some_iff (count_pos_iff.mpr hx), h x, decide_eq_true_eq]
  rw [hcount, countP_and_right]
  by_cases hq : q
  · have hone : (childNames e).count name = 1 :=
      List.count_eq_one_of_mem (nodup_childNames e) (count_pos_iff.mp (hpresent hq))
    rw [if_pos hq, if_pos hq, ← hone]
    rfl
  · rw [if_neg hq, if_neg hq]

theorem count_filterMap_nameFinding?_eq_zero (h : ∀ x, ¬ NameProblem rules e x d) :
    ((childNames e).filterMap (nameFinding? (.declared rules) e)).count d = 0 := by
  rw [List.count_filterMap, List.countP_eq_zero]
  intro x hx hd
  exact h x ((nameFinding?_eq_some_iff (count_pos_iff.mpr hx)).mp (beq_iff_eq.mp hd))

theorem count_emptyFindings (e : Element) (name : String) :
    (emptyFindings e).count (.notice (.emptyChild name)) =
      (e.childrenNamed name).countP (·.isEmpty) := by
  rw [emptyFindings, List.count_eq_countP, List.countP_map, List.countP_filter,
    Element.childrenNamed, List.countP_filter]
  refine List.countP_congr fun c _ => ?_
  simp [Diagnostic.notice, and_comm]

theorem count_emptyFindings_eq_zero (h : ∀ name, d ≠ .notice (.emptyChild name)) :
    (emptyFindings e).count d = 0 := by
  refine List.count_eq_zero.mpr fun hd => ?_
  obtain ⟨c, _, hc⟩ := List.mem_map.mp hd
  exact h c.name hc.symm

/-! ## Keys that share no name -/

theorem keyCount_eq_of_nodup (hnodup : (rules.map (·.key.element)).Nodup) :
    keyCount rules name mode = if HasMode rules name mode then 1 else 0 := by
  have hle : keyCount rules name mode ≤ 1 :=
    calc keyCount rules name mode
      _ ≤ rules.countP (·.key.element = name) :=
          List.countP_mono_left fun rule _ h => by simp_all
      _ = (rules.map (·.key.element)).count name := by
          rw [List.count_eq_countP, List.countP_map]
          rfl
      _ ≤ 1 := List.nodup_iff_count_le_one.mp hnodup name
  have hpos : 0 < keyCount rules name mode ↔ HasMode rules name mode := by
    simp only [keyCount, List.countP_pos_iff, decide_eq_true_eq, HasMode]
  split <;> rename_i hmode
  · have := hpos.mpr hmode
    omega
  · have := mt hpos.mp hmode
    omega

theorem lastMode?_eq_some_iff_of_nodup (hnodup : (rules.map (·.key.element)).Nodup) :
    lastMode? rules name = some mode ↔ HasMode rules name mode := by
  rw [← resolve?_mode, Option.map_eq_some_iff]
  constructor
  · rintro ⟨rule, hrule, hmode⟩
    obtain ⟨before, after, rfl, hname, -⟩ := resolve?_declared_eq_some_iff.mp hrule
    exact ⟨rule, by simp, hname, hmode⟩
  · rintro ⟨rule, hmem, hname, hmode⟩
    obtain ⟨before, after, rfl⟩ := List.append_of_mem hmem
    refine ⟨rule, resolve?_declared_eq_some_iff.mpr ⟨before, after, rfl, hname, ?_⟩, hmode⟩
    intro rule' hmem' hname'
    rw [List.map_append, List.map_cons, List.nodup_append, List.nodup_cons] at hnodup
    exact hnodup.2.1.1 (List.mem_map.mpr ⟨rule', hmem', hname'.trans hname.symm⟩)

theorem lastMode?_eq_none_iff :
    lastMode? rules name = none ↔ ∀ rule ∈ rules, rule.key.element ≠ name := by
  rw [← resolve?_mode, Option.map_eq_none_iff, resolve?_declared_eq_none_iff]

/-! ## The findings of an element -/

/-- The findings stand in three groups: for keys in the order of the keys, for names in the order of
their first appearance, and for empty children in the order of the children. -/
def Arranged (rules : List ChildRule) (e : Element) (found : List Diagnostic) : Prop :=
  ∃ keys forKeys names forNames,
    found = forKeys ++ forNames ++
        (e.children.filter (·.isEmpty)).map (fun c => .notice (.emptyChild c.name)) ∧
      keys.Sublist rules ∧ List.Forall₂ (KeyProblem e) keys forKeys ∧
      names.Pairwise (fun a b =>
        (e.children.map Element.name).idxOf a < (e.children.map Element.name).idxOf b) ∧
      List.Forall₂ (NameProblem rules e) names forNames

/-- How often each problem with a name is found. Each key that wants one child counts on its own; the
last key alone says whether the name is known and whether it may occur once at most. -/
structure FoundByKeys (rules : List ChildRule) (e : Element) (found : List Diagnostic)
    (name : String) : Prop where
  missing : found.count (.error (.missingRequired e.name name)) =
    if e.count name = 0 then keyCount rules name .requiredSingle else 0
  leftOut : found.count (.notice (.missingOptional e.name name)) =
    if e.count name = 0 then keyCount rules name .recommendedSingle else 0
  repeated : found.count (.error (.multipleFound e.name name)) =
    (if 1 < e.count name then keyCount rules name .requiredSingle else 0) +
      if 1 < e.count name ∧ lastMode? rules name = some .optionalSingle then 1 else 0
  doubled : found.count (.warning (.multipleFound e.name name)) =
    if 1 < e.count name then keyCount rules name .recommendedSingle else 0
  unknown : found.count (.notice (.unknownChild e.name name)) =
    if 0 < e.count name ∧ lastMode? rules name = none then 1 else 0
  empty : found.count (.notice (.emptyChild name)) = (e.childrenNamed name).countP (·.isEmpty)

/-- Each problem with a name is found once, and an empty child once for each. -/
structure FoundOnce (rules : List ChildRule) (e : Element) (found : List Diagnostic)
    (name : String) : Prop where
  missing : found.count (.error (.missingRequired e.name name)) =
    if e.count name = 0 ∧ HasMode rules name .requiredSingle then 1 else 0
  leftOut : found.count (.notice (.missingOptional e.name name)) =
    if e.count name = 0 ∧ HasMode rules name .recommendedSingle then 1 else 0
  repeated : found.count (.error (.multipleFound e.name name)) =
    if 1 < e.count name ∧
      (HasMode rules name .requiredSingle ∨ HasMode rules name .optionalSingle) then 1 else 0
  doubled : found.count (.warning (.multipleFound e.name name)) =
    if 1 < e.count name ∧ HasMode rules name .recommendedSingle then 1 else 0
  unknown : found.count (.notice (.unknownChild e.name name)) =
    if 0 < e.count name ∧ ∀ rule ∈ rules, rule.key.element ≠ name then 1 else 0
  empty : found.count (.notice (.emptyChild name)) = (e.childrenNamed name).countP (·.isEmpty)

theorem exists_sublist_forall₂_filterMap {α β : Type} (f : α → Option β) (items : List α) :
    ∃ kept, kept.Sublist items ∧ List.Forall₂ (fun a b => f a = some b) kept (items.filterMap f) := by
  induction items with
  | nil => exact ⟨[], .refl _, .nil⟩
  | cons a items ih =>
      obtain ⟨kept, hsub, hkept⟩ := ih
      cases ha : f a with
      | none => exact ⟨kept, hsub.cons a, by rwa [List.filterMap_cons_none ha]⟩
      | some b =>
          rw [List.filterMap_cons_some ha]
          exact ⟨a :: kept, hsub.cons_cons a, .cons ha hkept⟩

variable {g : Grammar} {ruleset : String}

theorem childFindings_eq_of_declared (hrules : g.childRules? ruleset = some (.declared rules)) :
    childFindings g ruleset e = rules.filterMap (multiplicityFinding? e) ++
      (childNames e).filterMap (nameFinding? (.declared rules) e) ++ emptyFindings e := by
  rw [childFindings, hrules]

theorem arranged_childFindings (hrules : g.childRules? ruleset = some (.declared rules)) :
    Arranged rules e (childFindings g ruleset e) := by
  obtain ⟨keys, hkeys, hforKeys⟩ := exists_sublist_forall₂_filterMap (multiplicityFinding? e) rules
  obtain ⟨names, hnames, hforNames⟩ :=
    exists_sublist_forall₂_filterMap (nameFinding? (.declared rules) e) (childNames e)
  refine ⟨keys, _, names, _, childFindings_eq_of_declared hrules, hkeys,
    hforKeys.imp fun _ _ => multiplicityFinding?_eq_some_iff.mp, ?_, ?_⟩
  · rw [childNames_eq_firstPlaces] at hnames
    exact (pairwise_firstPlaces _).sublist hnames
  · have hproblems : List.Forall₂ (fun name d => name ∈ childNames e ∧
        nameFinding? (.declared rules) e name = some d) names _ :=
      (List.forall₂_and_left _ _).mpr ⟨hnames.subset, hforNames⟩
    exact hproblems.imp fun name d ⟨hname, hd⟩ =>
      (nameFinding?_eq_some_iff (count_pos_iff.mpr hname)).mp hd

theorem count_childFindings (hrules : g.childRules? ruleset = some (.declared rules)) {k n m : Nat}
    (hkeys : (rules.filterMap (multiplicityFinding? e)).count d = k)
    (hnames : ((childNames e).filterMap (nameFinding? (.declared rules) e)).count d = n)
    (hempty : (emptyFindings e).count d = m) :
    (childFindings g ruleset e).count d = k + n + m := by
  rw [childFindings_eq_of_declared hrules, List.count_append, List.count_append, hkeys, hnames, hempty]

theorem foundByKeys_childFindings (hrules : g.childRules? ruleset = some (.declared rules))
    (name : String) : FoundByKeys rules e (childFindings g ruleset e) name where
  missing := count_childFindings hrules
    (count_filterMap_multiplicityFinding? fun _ => keyProblem_missing_iff)
    (count_filterMap_nameFinding?_eq_zero nofun) (count_emptyFindings_eq_zero nofun)
  leftOut := count_childFindings hrules
    (count_filterMap_multiplicityFinding? fun _ => keyProblem_leftOut_iff)
    (count_filterMap_nameFinding?_eq_zero nofun) (count_emptyFindings_eq_zero nofun)
  repeated := count_childFindings hrules
    (count_filterMap_multiplicityFinding? fun _ => keyProblem_repeated_iff)
    (count_filterMap_nameFinding? (fun _ => nameProblem_repeated_iff) fun h => Nat.zero_lt_of_lt h.1)
    (count_emptyFindings_eq_zero nofun)
  doubled := count_childFindings hrules
    (count_filterMap_multiplicityFinding? fun _ => keyProblem_doubled_iff)
    (count_filterMap_nameFinding?_eq_zero nofun) (count_emptyFindings_eq_zero nofun)
  unknown :=
    (count_childFindings (d := .notice (.unknownChild e.name name)) hrules
      (count_filterMap_multiplicityFinding?_eq_zero nofun)
      (count_filterMap_nameFinding? (fun _ => nameProblem_unknown_iff) And.left)
      (count_emptyFindings_eq_zero nofun)).trans (Nat.zero_add _)
  empty :=
    (count_childFindings (d := .notice (.emptyChild name)) hrules
      (count_filterMap_multiplicityFinding?_eq_zero nofun) (count_filterMap_nameFinding?_eq_zero nofun)
      (count_emptyFindings e name)).trans (Nat.zero_add _)

/-- Where no two keys share a name, one key at most wants anything of it. -/
theorem FoundByKeys.once {found : List Diagnostic} (h : FoundByKeys rules e found name)
    (hnodup : (rules.map (·.key.element)).Nodup) : FoundOnce rules e found name where
  missing := by simp only [h.missing, keyCount_eq_of_nodup hnodup, ite_and]
  leftOut := by simp only [h.leftOut, keyCount_eq_of_nodup hnodup, ite_and]
  repeated := by
    have hother : HasMode rules name .requiredSingle → ¬ HasMode rules name .optionalSingle := by
      intro hrequired hoptional
      rw [← lastMode?_eq_some_iff_of_nodup hnodup] at hrequired hoptional
      cases hrequired.symm.trans hoptional
    rw [h.repeated, keyCount_eq_of_nodup hnodup]
    simp only [lastMode?_eq_some_iff_of_nodup hnodup]
    by_cases hcount : 1 < e.count name
    · by_cases hrequired : HasMode rules name .requiredSingle
      · simp only [hcount, hrequired, hother hrequired]
        rfl
      · simp only [hcount, hrequired, if_true, if_false, true_and, false_or, Nat.zero_add]
    · simp only [hcount, if_false, false_and]
  doubled := by simp only [h.doubled, keyCount_eq_of_nodup hnodup, ite_and]
  unknown := by simp only [h.unknown, lastMode?_eq_none_iff]
  empty := h.empty

/-- Each problem with the children of an element is found exactly once, in its place, and nothing else
is found. Keys that share a name count each on its own, and only the last of them says whether the name
is known and whether it may be repeated. -/
theorem childFindings_once (hrules : g.childRules? ruleset = some (.declared rules)) (e : Element) :
    Arranged rules e (childFindings g ruleset e) ∧
      (∀ name, FoundByKeys rules e (childFindings g ruleset e) name) ∧
      ((rules.map (·.key.element)).Nodup →
        ∀ name, FoundOnce rules e (childFindings g ruleset e) name) :=
  ⟨arranged_childFindings hrules, foundByKeys_childFindings hrules,
    fun hnodup name => (foundByKeys_childFindings hrules name).once hnodup⟩

/-- One ruleset with a key for each name, and one with two keys for `config`, of which the second would
allow any number. -/
theorem childFindings_once_shared :
    let rules : List ChildRule := [⟨⟨none, "name"⟩, .requiredSingle⟩,
      ⟨⟨none, "author"⟩, .recommendedSingle⟩, ⟨⟨none, "config"⟩, .optionalSingle⟩]
    let shared : List ChildRule := [⟨⟨none, "config"⟩, .requiredSingle⟩,
      ⟨⟨some "extra", "config"⟩, .multiple⟩]
    let g : Grammar := { children := [("extension", .declared rules), ("files", .declared shared)] }
    let config : Element := .node "config" [] [] "c"
    let author : Element := .node "author" [] [] ""
    let e : Element := .node "extension" [] [config, author, .node "note" [] [] "n", config, author] ""
    let found : List Diagnostic := [.error (.missingRequired "extension" "name"),
      .warning (.multipleFound "extension" "author"), .error (.multipleFound "extension" "config"),
      .notice (.unknownChild "extension" "note"), .notice (.emptyChild "author"),
      .notice (.emptyChild "author")]
    g.childRules? "extension" = some (.declared rules) ∧ (rules.map (·.key.element)).Nodup ∧
      childFindings g "extension" e = found ∧ FoundOnce rules e found "config" ∧
      g.childRules? "files" = some (.declared shared) ∧
      FoundByKeys shared e (childFindings g "files" e) "config" ∧
      (childFindings g "files" e).count (.error (.multipleFound "extension" "config")) = 1 := by
  intro rules shared g config author e found
  have hrules : g.childRules? "extension" = some (.declared rules) := rfl
  have hshared : g.childRules? "files" = some (.declared shared) := rfl
  have hnodup : (rules.map (·.key.element)).Nodup := by decide
  have hfound : childFindings g "extension" e = found := by decide
  exact ⟨hrules, hnodup, hfound, hfound ▸ (childFindings_once hrules e).2.2 hnodup "config", hshared,
    (childFindings_once hshared e).2.1 "config", by decide⟩

end ExtensionLint.Manifest
