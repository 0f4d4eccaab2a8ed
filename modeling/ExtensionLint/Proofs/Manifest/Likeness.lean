import ExtensionLint.Proofs.Manifest.Conformance

/-!
# What validation does not look into

Two elements are alike to a ruleset if they differ only in parts that it does not open: whatever lies
below children that are not expected, covered by a wildcard or undeclared. Validation cannot tell alike
documents apart (`validateDocument_eq_of_alike`).
-/

namespace ExtensionLint.Manifest

open Markup

mutual
/-- The elements differ at most in what the ruleset does not open. -/
def Alike (g : Grammar) (ruleset : String) : Element → Element → Prop
  | .node name attributes children text, .node name' attributes' children' text' =>
    name = name' ∧ attributes = attributes' ∧ text = text' ∧
      match g.childRules? ruleset with
      | none => children = [] ↔ children' = []
      | some .wildcard => children = [] ↔ children' = []
      | some (.declared _) => ChildrenAlike g ruleset children children'

/-- The children go in pairs of one name, both empty or both not; and the elements of a pair that the
ruleset opens are alike to the ruleset that it leads to. -/
def ChildrenAlike (g : Grammar) (ruleset : String) : List Element → List Element → Prop
  | [], [] => True
  | c :: cs, c' :: cs' =>
    (c.name = c'.name ∧ c.isEmpty = c'.isEmpty ∧
      ∀ inner, g.resolve? ruleset c.name = some inner → Alike g inner c c') ∧
      ChildrenAlike g ruleset cs cs'
  | _, _ => False
end

variable {g : Grammar} {ruleset : String} {e e' : Element}

/-! ## What the checks of an element look at -/

/-- All that the checks of an element look at in its children. -/
def outlines (cs : List Element) : List (String × Bool) := cs.map fun c => (c.name, c.isEmpty)

theorem ChildrenAlike.outlines_eq : ∀ {cs cs' : List Element}, ChildrenAlike g ruleset cs cs' →
    outlines cs = outlines cs'
  | [], [], _ => rfl
  | c :: cs, c' :: cs', h => by
      obtain ⟨⟨hname, hempty, _⟩, hrest⟩ := h
      have htail : outlines cs = outlines cs' := hrest.outlines_eq
      simp only [outlines, List.map_cons, hname, hempty] at htail ⊢
      rw [htail]

theorem count_eq_outlines (e : Element) (name : String) :
    e.count name = ((outlines e.children).filter (·.1 = name)).length := by
  rw [Element.count, Element.childrenNamed, outlines, List.filter_map, List.length_map]
  rfl

theorem childNames_eq_outlines (e : Element) : childNames e =
    (outlines e.children).foldl (fun names c => if names.contains c.1 then names else names ++ [c.1])
      [] := by
  rw [outlines, List.foldl_map]
  rfl

theorem emptyFindings_eq_outlines (e : Element) : emptyFindings e =
    ((outlines e.children).filter (·.2)).map fun c => .notice (.emptyChild c.1) := by
  rw [outlines, List.filter_map, List.map_map]
  rfl

theorem isEmpty_eq_outlines (e : Element) : e.children.isEmpty = (outlines e.children).isEmpty :=
  List.isEmpty_map.symm

theorem attributeFindings_congr (hname : e.name = e'.name)
    (hattributes : e.attributes = e'.attributes) :
    attributeFindings g ruleset e = attributeFindings g ruleset e' := by
  simp only [attributeFindings, hname, hattributes]

theorem multiplicityFinding?_congr (hname : e.name = e'.name) (hcount : e.count = e'.count) :
    multiplicityFinding? e = multiplicityFinding? e' := by
  funext rule
  simp only [multiplicityFinding?, hcount, hname]

theorem nameFinding?_congr (hname : e.name = e'.name) (hcount : e.count = e'.count)
    (rules : ChildRules) : nameFinding? rules e = nameFinding? rules e' := by
  funext name
  simp only [nameFinding?, hcount, hname]

theorem childFindings_congr (hname : e.name = e'.name)
    (hchildren : outlines e.children = outlines e'.children) :
    childFindings g ruleset e = childFindings g ruleset e' := by
  have hcount : e.count = e'.count := by
    funext name
    rw [count_eq_outlines, count_eq_outlines, hchildren]
  simp only [childFindings, isEmpty_eq_outlines, childNames_eq_outlines, emptyFindings_eq_outlines,
    multiplicityFinding?_congr hname hcount, nameFinding?_congr hname hcount, hchildren, hname]

/-- No rules are declared, so no child is looked into. -/
def Closed (g : Grammar) (ruleset : String) : Prop :=
  ∀ rules, g.childRules? ruleset ≠ some (.declared rules)

/-- Where nothing is declared, it only matters whether there are children. -/
theorem childFindings_congr_of_closed (hclosed : Closed g ruleset) (hname : e.name = e'.name)
    (hchildren : e.children = [] ↔ e'.children = []) :
    childFindings g ruleset e = childFindings g ruleset e' := by
  have hempty : e.children.isEmpty = e'.children.isEmpty := by
    rw [Bool.eq_iff_iff, List.isEmpty_iff, List.isEmpty_iff, hchildren]
  unfold childFindings
  cases hg : g.childRules? ruleset with
  | none => simp only [hempty, hname]
  | some rules =>
      cases rules with
      | wildcard => rfl
      | declared rules => exact absurd hg (hclosed rules)

/-- The usual hooks look at the name and the attributes. -/
theorem run_defaultHooks_congr (hname : e.name = e'.name) (hattributes : e.attributes = e'.attributes) :
    defaultHooks.run e = defaultHooks.run e' := by
  rw [run_defaultHooks, run_defaultHooks, hname]
  unfold menuHook Element.attr?
  rw [hattributes]

/-! ## Alike elements -/

theorem Alike.name_eq (h : Alike g ruleset e e') : e.name = e'.name := by
  cases e; cases e'
  exact h.1

theorem Alike.attributes_eq (h : Alike g ruleset e e') : e.attributes = e'.attributes := by
  cases e; cases e'
  exact h.2.1

/-- Alike elements have either nothing to be looked into, or children that are alike. -/
theorem Alike.children (h : Alike g ruleset e e') :
    Closed g ruleset ∧ (e.children = [] ↔ e'.children = []) ∨
      ChildrenAlike g ruleset e.children e'.children := by
  obtain ⟨name, attributes, children, text⟩ := e
  obtain ⟨name', attributes', children', text'⟩ := e'
  obtain ⟨_, _, _, hchildren⟩ := h
  unfold Closed
  cases hg : g.childRules? ruleset with
  | none =>
      simp only [hg] at hchildren
      exact .inl ⟨nofun, hchildren⟩
  | some rules =>
      cases rules with
      | wildcard =>
          simp only [hg] at hchildren
          exact .inl ⟨nofun, hchildren⟩
      | declared rules =>
          simp only [hg] at hchildren
          exact .inr hchildren

theorem Alike.childFindings_eq (h : Alike g ruleset e e') :
    childFindings g ruleset e = childFindings g ruleset e' := by
  rcases h.children with ⟨hclosed, hempty⟩ | hchildren
  · exact childFindings_congr_of_closed hclosed h.name_eq hempty
  · exact childFindings_congr h.name_eq hchildren.outlines_eq

theorem validateChildren_of_closed (hclosed : Closed g ruleset) (h : Hooks) (cs : List Element)
    (b : Bucket) : validateChildren g h ruleset cs b = b := by
  have hnone (name : String) : g.resolve? ruleset name = none := by
    refine Option.eq_none_iff_forall_ne_some.mpr fun inner hinner => ?_
    obtain ⟨rules, _, hg, _⟩ := resolve?_eq_some_iff.mp hinner
    exact hclosed rules hg
  induction cs with
  | nil => rfl
  | cons c cs ih =>
      rw [validateChildren, hnone]
      exact ih

mutual
theorem validate_congr (g : Grammar) (ruleset : String) : ∀ (e e' : Element), Alike g ruleset e e' →
    ∀ b : Bucket, validate g defaultHooks ruleset e b = validate g defaultHooks ruleset e' b
  | .node name attributes children text, .node name' attributes' children' text', h, b => by
      simp only [validate, attributeFindings_congr h.name_eq h.attributes_eq, h.childFindings_eq,
        run_defaultHooks_congr h.name_eq h.attributes_eq]
      rcases h.children with ⟨hclosed, _⟩ | hchildren
      · rw [validateChildren_of_closed hclosed, validateChildren_of_closed hclosed]
      · exact validateChildren_congr g ruleset children children' hchildren _

theorem validateChildren_congr (g : Grammar) (ruleset : String) : ∀ (cs cs' : List Element),
    ChildrenAlike g ruleset cs cs' → ∀ b : Bucket,
      validateChildren g defaultHooks ruleset cs b = validateChildren g defaultHooks ruleset cs' b
  | [], [], _, _ => rfl
  | c :: cs, c' :: cs', h, b => by
      obtain ⟨⟨hname, _, hinside⟩, hrest⟩ := h
      simp only [validateChildren, ← hname]
      cases hinner : g.resolve? ruleset c.name with
      | none => exact validateChildren_congr g ruleset cs cs' hrest b
      | some inner =>
          simp only [validate_congr g inner c c' (hinside inner hinner) b]
          exact validateChildren_congr g ruleset cs cs' hrest _
end

/-- What the grammar does not open cannot influence the result: alike documents leave the same findings,
in the same order for each severity. -/
theorem validateDocument_eq_of_alike {g : Grammar} {root root' : Element}
    (h : Alike g rootRuleset root root') :
    validateDocument g defaultHooks root = validateDocument g defaultHooks root' :=
  validate_congr g rootRuleset root root' h {}

/-- Below `files`, which is a wildcard, and below `note`, which no rule declares, anything may differ. -/
theorem validateDocument_eq_of_alike_wildcard :
    let g : Grammar := {
      children := [("extension", .declared [⟨⟨none, "files"⟩, .requiredSingle⟩]), ("files", .wildcard)] }
    let root (inFiles inNote : List Element) : Element :=
      .node "extension" [("type", "file")] [.node "files" [] inFiles "", .node "note" [] inNote "n"] ""
    let menu : Element := .node "menu" [("link", "x"), ("task", "y")] [] ""
    let deep : Element := .node "a" [] [menu, menu] ""
    Alike g rootRuleset (root [menu] []) (root [deep, menu] [deep]) ∧
      validateDocument g defaultHooks (root [menu] []) =
        validateDocument g defaultHooks (root [deep, menu] [deep]) := by
  intro g root menu deep
  have hfiles : Alike g "files" (.node "files" [] [menu] "") (.node "files" [] [deep, menu] "") :=
    ⟨rfl, rfl, rfl, iff_of_false (List.cons_ne_nil _ _) (List.cons_ne_nil _ _)⟩
  have halike : Alike g rootRuleset (root [menu] []) (root [deep, menu] [deep]) := by
    refine ⟨rfl, rfl, rfl, ⟨rfl, rfl, fun inner hinner => ?_⟩, ⟨rfl, rfl, fun inner hinner => ?_⟩,
      trivial⟩
    · cases hinner
      exact hfiles
    · cases hinner
  exact ⟨halike, validateDocument_eq_of_alike halike⟩

end ExtensionLint.Manifest
