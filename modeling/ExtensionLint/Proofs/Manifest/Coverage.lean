import Mathlib.Logic.ExistsUnique
import ExtensionLint.Proofs.Manifest.Conformance

/-!
# What the descent covers

Every element of a document is either visited, once and with the ruleset that the names on the way to it
determine, or stands at or below an element where the descent stops. It stops at a wildcard, which asks
for that, or it leaves a notice (`element_meets_one_fate`).
-/

namespace ExtensionLint.Markup.Element

/-- The element at a place: the way down to it, by the positions of children. -/
def at? : Element → List Nat → Option Element
  | e, [] => some e
  | e, i :: place => e.children[i]?.bind fun c => c.at? place

/-- The names of the elements on the way to a place, without the one it starts from. -/
def namesTo : Element → List Nat → List String
  | _, [] => []
  | e, i :: place =>
    match e.children[i]? with
    | some c => c.name :: c.namesTo place
    | none => []

end ExtensionLint.Markup.Element

namespace ExtensionLint.Manifest

open Markup

variable {g : Grammar} {ruleset : String} {e : Element}

/-- The ruleset that names lead to, one after the other. -/
def rulesetAlong? (g : Grammar) (ruleset : String) (names : List String) : Option String :=
  names.foldlM g.resolve? ruleset

/-- The stop at a place, if the descent gets there. -/
def visitAt? (g : Grammar) : (ruleset : String) → Element → List Nat → Option Visit
  | ruleset, e, [] => some ⟨[], ruleset, e⟩
  | ruleset, e, i :: place =>
    e.children[i]?.bind fun c =>
      (g.resolve? ruleset c.name).bind fun inner => (visitAt? g inner c place).map (·.below i)

theorem visitAt?_eq_some_iff {place : List Nat} {v : Visit} :
    visitAt? g ruleset e place = some v ↔ v.place = place ∧ e.at? place = some v.element ∧
      rulesetAlong? g ruleset (e.namesTo place) = some v.ruleset := by
  induction place generalizing ruleset e v with
  | nil =>
      obtain ⟨place, r, x⟩ := v
      simp [visitAt?, Element.at?, Element.namesTo, rulesetAlong?, eq_comm, and_comm]
  | cons i place ih =>
      simp only [visitAt?, Element.at?, Element.namesTo, rulesetAlong?, Option.bind_eq_some_iff,
        Option.map_eq_some_iff]
      cases hc : e.children[i]? with
      | none => simp
      | some c =>
          simp only [Option.some.injEq, exists_eq_left', List.foldlM_cons]
          constructor
          · rintro ⟨inner, hinner, w, hw, rfl⟩
            obtain ⟨rfl, hx, hr⟩ := ih.mp hw
            exact ⟨rfl, hx, Option.bind_eq_some_iff.mpr ⟨inner, hinner, hr⟩⟩
          · rintro ⟨hplace, hx, hr⟩
            obtain ⟨inner, hinner, hr⟩ := Option.bind_eq_some_iff.mp hr
            refine ⟨inner, hinner, ⟨place, v.ruleset, v.element⟩, ih.mpr ⟨rfl, hx, hr⟩, ?_⟩
            simp only [Visit.below, ← hplace]

/-! ## Each place is visited at most once -/

theorem filter_childVisits (g : Grammar) (ruleset : String) (cs : List Element) (k i : Nat)
    (place : List Nat) :
    (childVisits g ruleset k cs).filter (·.place = (k + i) :: place) =
      (cs[i]?.bind fun c => (g.resolve? ruleset c.name).map fun inner =>
        ((visits g inner c).filter (·.place = place)).map (Visit.below (k + i))).getD [] := by
  -- `k + i` stays the same while the children before the place are left behind
  induction cs generalizing k i with
  | nil => rfl
  | cons c cs ih =>
      have hhead : ∀ inner, ((visits g inner c).map (Visit.below k)).filter
          (·.place = (k + i) :: place) = if i = 0 then
            ((visits g inner c).filter (·.place = place)).map (Visit.below k) else [] := by
        intro inner
        by_cases hi : i = 0 <;> simp [List.filter_map, Function.comp_def, hi]
      rw [childVisits, List.filter_append]
      cases i with
      | zero =>
          have htail : (childVisits g ruleset (k + 1) cs).filter (·.place = (k + 0) :: place) = [] := by
            rw [List.filter_eq_nil_iff]
            intro v hv
            obtain ⟨j, c', inner, _, _, w, _, rfl⟩ := mem_childVisits.mp hv
            simp only [Visit.below_place, List.cons.injEq, decide_eq_true_eq, not_and]
            omega
          rw [htail, List.append_nil, List.getElem?_cons_zero, Option.bind_some]
          cases g.resolve? ruleset c.name with
          | none => rfl
          | some inner => simpa using hhead inner
      | succ i =>
          have htail := ih (k + 1) i
          rw [show k + 1 + i = k + (i + 1) by omega] at htail
          rw [htail, List.getElem?_cons_succ]
          cases g.resolve? ruleset c.name with
          | none => rfl
          | some inner => simp only [hhead, Nat.add_eq_zero_iff, Nat.one_ne_zero, and_false,
              ↓reduceIte, List.nil_append]

/-- The stops at one place are the one that the names on the way lead to, or none. -/
theorem filter_visits (place : List Nat) (ruleset : String) (e : Element) :
    (visits g ruleset e).filter (·.place = place) = (visitAt? g ruleset e place).toList := by
  induction place generalizing ruleset e with
  | nil =>
      have htail : (childVisits g ruleset 0 e.children).filter (·.place = []) = [] := by
        rw [List.filter_eq_nil_iff]
        intro v hv
        obtain ⟨j, c, inner, _, _, w, _, rfl⟩ := mem_childVisits.mp hv
        simp
      rw [visits_eq, List.filter_cons_of_pos (by simp), htail]
      rfl
  | cons i place ih =>
      rw [visits_eq, List.filter_cons_of_neg (by simp), visitAt?]
      have hchildren := filter_childVisits g ruleset e.children 0 i place
      rw [Nat.zero_add] at hchildren
      rw [hchildren]
      cases e.children[i]? with
      | none => rfl
      | some c =>
          simp only [Option.bind_some]
          cases g.resolve? ruleset c.name with
          | none => rfl
          | some inner =>
              simp only [Option.map_some, Option.getD_some, Option.bind_some, ih]
              cases visitAt? g inner c place <;> rfl

theorem mem_visits_iff {v : Visit} :
    v ∈ visits g ruleset e ↔ visitAt? g ruleset e v.place = some v := by
  rw [← Option.mem_toList, ← filter_visits, List.mem_filter]
  simp

/-! ## From a stop to the next -/

theorem visitAt?_concat (place : List Nat) (i : Nat) : visitAt? g ruleset e (place ++ [i]) =
    (visitAt? g ruleset e place).bind fun v => v.element.children[i]?.bind fun c =>
      (g.resolve? v.ruleset c.name).map (⟨place ++ [i], ·, c⟩) := by
  induction place generalizing ruleset e with
  | nil =>
      simp only [List.nil_append, visitAt?, Option.bind_some, Option.map_eq_bind]
      rfl
  | cons j place ih =>
      simp only [List.cons_append, visitAt?, ih, Option.bind_assoc, Option.bind_map, Option.map_bind,
        Option.map_map, Function.comp_def]
      rfl

/-- Whatever lies above a visited place is visited. -/
theorem exists_visit_above {place : List Nat} {v : Visit} (h : visitAt? g ruleset e place = some v)
    {above : List Nat} (habove : above <+: place) : ∃ w, visitAt? g ruleset e above = some w := by
  induction place generalizing ruleset e v above with
  | nil =>
      rw [List.prefix_nil] at habove
      exact ⟨v, habove ▸ h⟩
  | cons i place ih =>
      cases above with
      | nil => exact ⟨_, rfl⟩
      | cons j above =>
          obtain ⟨rfl, hrest⟩ := List.cons_prefix_cons.mp habove
          simp only [visitAt?, Option.bind_eq_some_iff, Option.map_eq_some_iff] at h ⊢
          obtain ⟨c, hc, inner, hinner, w, hw, _⟩ := h
          obtain ⟨u, hu⟩ := ih hw hrest
          exact ⟨_, c, hc, inner, hinner, u, hu, rfl⟩

/-- On the way to an element that is not visited, the descent gets to an element of which it does not
look into the child that comes next. -/
theorem exists_last_visit {place : List Nat} {x : Element} (hx : e.at? place = some x)
    (h : visitAt? g ruleset e place = none) : ∃ before i after parent c,
      place = before ++ i :: after ∧ visitAt? g ruleset e before = some parent ∧
        parent.element.children[i]? = some c ∧ g.resolve? parent.ruleset c.name = none := by
  induction place generalizing ruleset e with
  | nil => cases h
  | cons i place ih =>
      simp only [Element.at?, Option.bind_eq_some_iff] at hx
      obtain ⟨c, hc, hx⟩ := hx
      simp only [visitAt?, hc, Option.bind_some] at h
      cases hinner : g.resolve? ruleset c.name with
      | none => exact ⟨[], i, place, ⟨[], ruleset, e⟩, c, rfl, rfl, hc, hinner⟩
      | some inner =>
          simp only [hinner, Option.bind_some, Option.map_eq_none_iff] at h
          obtain ⟨before, j, after, parent, d, rfl, hparent, hd, hnone⟩ := ih hx h
          refine ⟨i :: before, j, after, parent.below i, d, rfl, ?_, hd, hnone⟩
          simp only [visitAt?, hc, hinner, hparent, Option.bind_some, Option.map_some]

/-! ## Where the descent stops -/

/-- No stop of the descent is at the place. -/
def Unvisited (g : Grammar) (root : Element) (place : List Nat) : Prop :=
  ∀ v ∈ visits g rootRuleset root, v.place ≠ place

variable {root : Element} {h : Hooks}

theorem unvisited_iff {place : List Nat} :
    Unvisited g root place ↔ visitAt? g rootRuleset root place = none := by
  constructor
  · intro hu
    refine Option.eq_none_iff_forall_ne_some.mpr fun v hv => ?_
    have hplace := (visitAt?_eq_some_iff.mp hv).1
    exact hu v (mem_visits_iff.mpr (hplace.symm ▸ hv)) hplace
  · rintro hnone v hv rfl
    rw [mem_visits_iff, hnone] at hv
    cases hv

/-- On the way to a place, `x` is the topmost element that is not visited, and `parent` the stop at its
parent. -/
structure Barrier (g : Grammar) (root : Element) (place : List Nat) (parent : Visit) (x : Element) :
    Prop where
  parent_visited : parent ∈ visits g rootRuleset root
  on_the_way : ∃ i, parent.place ++ [i] <+: place ∧ parent.element.children[i]? = some x ∧
    Unvisited g root (parent.place ++ [i])
  topmost : ∀ above, above <+: parent.place → ¬ Unvisited g root above

theorem Barrier.unvisited {place : List Nat} {parent : Visit} {x : Element}
    (hb : Barrier g root place parent x) : Unvisited g root place := by
  obtain ⟨i, hway, _, hu⟩ := hb.on_the_way
  rw [unvisited_iff] at hu ⊢
  refine Option.eq_none_iff_forall_ne_some.mpr fun v hv => ?_
  obtain ⟨w, hw⟩ := exists_visit_above hv hway
  rw [hu] at hw
  cases hw

theorem Barrier.length_le {place : List Nat} {parent parent' : Visit} {x x' : Element}
    (hb : Barrier g root place parent x) (hb' : Barrier g root place parent' x') :
    parent'.place.length ≤ parent.place.length := by
  obtain ⟨i, hway, _, hu⟩ := hb.on_the_way
  obtain ⟨i', hway', _, _⟩ := hb'.on_the_way
  -- else the way to the second parent leads through the first unvisited element
  refine Nat.le_of_not_lt fun hlt => hb'.topmost (parent.place ++ [i]) ?_ hu
  refine List.prefix_of_prefix_length_le hway ((List.prefix_append _ [i']).trans hway') ?_
  rw [List.length_append]
  exact hlt

theorem Barrier.parent_eq {place : List Nat} {parent parent' : Visit} {x x' : Element}
    (hb : Barrier g root place parent x) (hb' : Barrier g root place parent' x') :
    parent = parent' := by
  obtain ⟨i, hway, _, _⟩ := hb.on_the_way
  obtain ⟨i', hway', _, _⟩ := hb'.on_the_way
  have hplace : parent.place = parent'.place := by
    refine List.IsPrefix.eq_of_length_le ?_ (hb.length_le hb')
    exact List.prefix_of_prefix_length_le ((List.prefix_append _ [i]).trans hway)
      ((List.prefix_append _ [i']).trans hway') (hb'.length_le hb)
  have hv := mem_visits_iff.mp hb.parent_visited
  rw [hplace, mem_visits_iff.mp hb'.parent_visited] at hv
  exact (Option.some.inj hv).symm

theorem exists_barrier {place : List Nat} {x : Element} (hx : root.at? place = some x)
    (hu : Unvisited g root place) : ∃ parent c, Barrier g root place parent c ∧
      c ∈ parent.element.children ∧ g.resolve? parent.ruleset c.name = none := by
  obtain ⟨before, i, after, parent, c, rfl, hparent, hc, hnone⟩ :=
    exists_last_visit hx (unvisited_iff.mp hu)
  obtain ⟨rfl, _⟩ := visitAt?_eq_some_iff.mp hparent
  refine ⟨parent, c, ⟨mem_visits_iff.mpr hparent, ⟨i, ?_, hc, ?_⟩, ?_⟩,
    List.mem_of_getElem? hc, hnone⟩
  · exact ⟨after, by simp⟩
  · rw [unvisited_iff, visitAt?_concat, hparent]
    simp only [Option.bind_some, hc, hnone, Option.map_none]
  · intro above habove hnot
    obtain ⟨w, hw⟩ := exists_visit_above hparent habove
    rw [unvisited_iff, hw] at hnot
    cases hnot

/-! ## What becomes of each element -/

theorem mem_notices_validateDocument {f : Finding} :
    Diagnostic.notice f ∈ (validateDocument g h root).notices ↔
      ∃ v ∈ visits g rootRuleset root, Diagnostic.notice f ∈ v.findings g h := by
  have hnotices := ofSeverity_validateDocument g h root .notice
  rw [Bucket.ofSeverity] at hnotices
  simp [hnotices, Diagnostic.notice]

/-- The check of an element reports a child as unknown exactly if no declared rule is for its name. -/
theorem unknownChild_mem_iff {rules : List ChildRule} (hg : g.childRules? ruleset = some (.declared rules))
    {c : Element} (hc : c ∈ e.children) :
    Diagnostic.notice (.unknownChild e.name c.name) ∈ childFindings g ruleset e ↔
      g.resolve? ruleset c.name = none := by
  have hresolve : g.resolve? ruleset c.name = none ↔
      (ChildRules.declared rules).resolve? c.name = none := by
    simp [Grammar.resolve?, hg]
  rw [hresolve]
  simp only [childFindings, hg, List.mem_append, List.mem_filterMap, emptyFindings, List.mem_map]
  constructor
  · rintro ((⟨rule, _, hrule⟩ | ⟨name, _, hname⟩) | ⟨d, _, hd⟩)
    · simp only [multiplicityFinding?] at hrule
      split at hrule <;> simp [Diagnostic.notice, Diagnostic.error, Diagnostic.warning] at hrule
    · unfold nameFinding? at hname
      cases hr : (ChildRules.declared rules).resolve? name with
      | none =>
          simp only [hr, Option.some.injEq, Diagnostic.notice, Diagnostic.mk.injEq,
            Finding.unknownChild.injEq, true_and] at hname
          rw [← hname, hr]
      | some rule =>
          simp only [hr] at hname
          split at hname <;> simp [Diagnostic.notice, Diagnostic.error] at hname
    · simp [Diagnostic.notice] at hd
  · intro hnone
    refine Or.inl (Or.inr ⟨c.name, ?_, by simp only [nameFinding?, hnone]⟩)
    exact mem_childNames.mpr (List.mem_map.mpr ⟨c, hc, rfl⟩)

/-- What can become of an element of a document. -/
inductive Fate
  | visited
  | underWildcard
  | underNoRules
  | undeclared

/-- What it means for the element at a place to meet a fate. -/
def Meets (g : Grammar) (h : Hooks) (root : Element) (place : List Nat) : Fate → Prop
  | .visited => ∃ v, (visits g rootRuleset root).filter (·.place = place) = [v] ∧
      root.at? place = some v.element ∧
      rulesetAlong? g rootRuleset (root.namesTo place) = some v.ruleset
  | .underWildcard => ∃ parent x, Barrier g root place parent x ∧
      g.childRules? parent.ruleset = some .wildcard
  | .underNoRules => ∃ parent x, Barrier g root place parent x ∧
      g.childRules? parent.ruleset = none ∧
      .notice (.unknownChildren parent.element.name) ∈ (validateDocument g h root).notices
  | .undeclared => ∃ parent x rules, Barrier g root place parent x ∧
      g.childRules? parent.ruleset = some (.declared rules) ∧
      (∀ rule ∈ rules, rule.key.element ≠ x.name) ∧
      .notice (.unknownChild parent.element.name x.name) ∈ (validateDocument g h root).notices

/-- The fate of what stands at or below a child that is not looked into. -/
def Fate.under : Option ChildRules → Fate
  | none => .underNoRules
  | some .wildcard => .underWildcard
  | some (.declared _) => .undeclared

theorem meets_visited {place : List Nat} {v : Visit}
    (hv : visitAt? g rootRuleset root place = some v) : Meets g h root place .visited := by
  obtain ⟨_, hx, hr⟩ := visitAt?_eq_some_iff.mp hv
  exact ⟨v, by rw [filter_visits, hv]; rfl, hx, hr⟩

theorem meets_under {place : List Nat} {parent : Visit} {c : Element}
    (hb : Barrier g root place parent c) (hc : c ∈ parent.element.children)
    (hnone : g.resolve? parent.ruleset c.name = none) :
    Meets g h root place (Fate.under (g.childRules? parent.ruleset)) := by
  have hnotice : ∀ f, Diagnostic.notice f ∈ childFindings g parent.ruleset parent.element →
      Diagnostic.notice f ∈ (validateDocument g h root).notices := by
    intro f hf
    refine mem_notices_validateDocument.mpr ⟨parent, hb.parent_visited, ?_⟩
    simp only [Visit.findings, List.mem_append, hf, or_true, true_or]
  cases hg : g.childRules? parent.ruleset with
  | none =>
      refine ⟨parent, c, hb, hg, hnotice _ ?_⟩
      have hchildren : parent.element.children.isEmpty = false :=
        List.isEmpty_eq_false_iff_exists_mem.mpr ⟨c, hc⟩
      simp [childFindings, hg, hchildren]
  | some rules =>
      cases rules with
      | wildcard => exact ⟨parent, c, hb, hg⟩
      | declared rules =>
          refine ⟨parent, c, rules, hb, hg, ?_, hnotice _ ((unknownChild_mem_iff hg hc).mpr hnone)⟩
          refine resolve?_declared_eq_none_iff.mp ?_
          simpa [Grammar.resolve?, hg] using hnone

theorem Meets.unvisited {place : List Nat} {fate : Fate} (hm : Meets g h root place fate)
    (hfate : fate ≠ .visited) : ∃ parent x, Barrier g root place parent x ∧
      fate = Fate.under (g.childRules? parent.ruleset) := by
  cases fate with
  | visited => exact absurd rfl hfate
  | underWildcard =>
      obtain ⟨parent, x, hb, hg⟩ := hm
      exact ⟨parent, x, hb, by rw [hg]; rfl⟩
  | underNoRules =>
      obtain ⟨parent, x, hb, hg, _⟩ := hm
      exact ⟨parent, x, hb, by rw [hg]; rfl⟩
  | undeclared =>
      obtain ⟨parent, x, rules, hb, hg, _⟩ := hm
      exact ⟨parent, x, hb, by rw [hg]; rfl⟩

/-- Nothing in a document is passed over in silence. Validation is one check for each visit; each
element is visited once, with the ruleset that the names on the way to it lead to, or its fate is that
of the topmost unvisited element on the way to it; and under declared rules a child is unknown to the
check of its parent exactly if it is not visited. -/
theorem element_meets_one_fate (g : Grammar) (h : Hooks) (root : Element) :
    validateDocument g h root = (visits g rootRuleset root).foldl (Visit.check g h) {} ∧
    (∀ place x, root.at? place = some x → ∃! fate, Meets g h root place fate) ∧
    ∀ ruleset rules e i c, g.childRules? ruleset = some (.declared rules) →
      e.children[i]? = some c →
      (.notice (.unknownChild e.name c.name) ∈ childFindings g ruleset e ↔
        ∀ v ∈ visits g ruleset e, v.place ≠ [i]) := by
  refine ⟨validate_eq_foldl g h rootRuleset root {}, ?_, ?_⟩
  · intro place x hx
    cases hv : visitAt? g rootRuleset root place with
    | some v =>
        refine ⟨.visited, meets_visited hv, fun fate hm => ?_⟩
        refine Classical.byContradiction fun hfate => ?_
        obtain ⟨parent, c, hb, _⟩ := hm.unvisited hfate
        rw [unvisited_iff.mp hb.unvisited] at hv
        cases hv
    | none =>
        obtain ⟨parent, c, hb, hc, hnone⟩ := exists_barrier hx (unvisited_iff.mpr hv)
        refine ⟨_, meets_under hb hc hnone, fun fate hm => ?_⟩
        by_cases hfate : fate = .visited
        · subst hfate
          obtain ⟨v, hfilter, _⟩ := hm
          rw [filter_visits, hv] at hfilter
          cases hfilter
        · obtain ⟨parent', c', hb', hunder⟩ := hm.unvisited hfate
          rw [hunder, hb.parent_eq hb']
  · intro ruleset rules e i c hg hc
    rw [unknownChild_mem_iff hg (List.mem_of_getElem? hc), visits_eq]
    simp only [List.forall_mem_cons, ne_eq, List.nil_eq, List.cons_ne_nil, not_false_eq_true,
      true_and]
    constructor
    · intro hnone v hv
      obtain ⟨j, d, inner, hd, hinner, w, _, rfl⟩ := mem_childVisits.mp hv
      simp only [Visit.below_place, Nat.zero_add, List.cons.injEq, not_and]
      rintro rfl
      rw [hc] at hd
      cases hd
      rw [hnone] at hinner
      cases hinner
    · intro hplaces
      refine Option.eq_none_iff_forall_ne_some.mpr fun inner hinner => ?_
      refine hplaces ((⟨[], inner, c⟩ : Visit).below (0 + i)) ?_ (by simp)
      exact mem_childVisits.mpr ⟨i, c, inner, hc, hinner, ⟨[], inner, c⟩, by simp [visits_eq], rfl⟩

end ExtensionLint.Manifest
