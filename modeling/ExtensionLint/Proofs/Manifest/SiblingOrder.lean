import Mathlib.Data.List.Forall2
import Mathlib.Data.List.Perm.Basic
import ExtensionLint.Proofs.Manifest.Likeness
import ExtensionLint.Proofs.Manifest.Multiplicity

/-!
# The order of siblings

What is found in a manifest does not depend on the order in which attributes and children are written,
at whatever depth; only the order of the findings does (`perm_validateDocument_of_reordered`).
-/

namespace ExtensionLint.Manifest

open Markup

/-- The second tree is the first one with the attributes and the children of its elements in another
order, at any number of levels. -/
inductive Reordered : Element → Element → Prop
  | node {name text : String} {attributes attributes' : List (String × String)}
    {children moved children' : List Element} (hattributes : attributes.Perm attributes')
    (hmoved : children.Perm moved) (hbelow : List.Forall₂ Reordered moved children') :
    Reordered (.node name attributes children text) (.node name attributes' children' text)

variable {g : Grammar} {ruleset : String} {e e' : Element}

namespace Reordered

theorem name_eq (h : Reordered e e') : e.name = e'.name := by
  cases h
  rfl

theorem attributes_perm (h : Reordered e e') : e.attributes.Perm e'.attributes := by
  cases h with
  | node hattributes _ _ => exact hattributes

theorem exists_moved (h : Reordered e e') :
    ∃ moved, e.children.Perm moved ∧ List.Forall₂ Reordered moved e'.children := by
  cases h with
  | node _ hmoved hbelow => exact ⟨_, hmoved, hbelow⟩

theorem isEmpty_eq (h : Reordered e e') : e.isEmpty = e'.isEmpty := by
  cases h with
  | @node _ text attributes attributes' children moved children' hattributes hmoved hbelow =>
      have hchildren : children.isEmpty = children'.isEmpty := by
        rw [Bool.eq_iff_iff, List.isEmpty_iff_length_eq_zero, List.isEmpty_iff_length_eq_zero,
          hmoved.length_eq, hbelow.length_eq]
      change (children.isEmpty && attributes.isEmpty && decide (text = "")) =
        (children'.isEmpty && attributes'.isEmpty && decide (text = ""))
      rw [hchildren, hattributes.isEmpty_eq]

theorem outlines_perm (h : Reordered e e') : (outlines e.children).Perm (outlines e'.children) := by
  obtain ⟨moved, hmoved, hbelow⟩ := h.exists_moved
  have houtlines : outlines moved = outlines e'.children := by
    rw [outlines, outlines, ← List.forall₂_eq_eq_eq, List.forall₂_map_left_iff,
      List.forall₂_map_right_iff]
    exact hbelow.imp fun c c' hc => by rw [hc.name_eq, hc.isEmpty_eq]
  rw [← houtlines]
  exact hmoved.map _

end Reordered

/-! ## What is found at an element -/

theorem attributeFindings_perm (hname : e.name = e'.name)
    (hattributes : e.attributes.Perm e'.attributes) :
    (attributeFindings g ruleset e).Perm (attributeFindings g ruleset e') := by
  simp only [attributeFindings, hname]
  exact (hattributes.filter _).map _

theorem childNames_perm (hchildren : (outlines e.children).Perm (outlines e'.children)) :
    (childNames e).Perm (childNames e') := by
  have hnames (e : Element) : e.children.map Element.name = (outlines e.children).map (·.1) := by
    rw [outlines, List.map_map]
    rfl
  refine (List.perm_ext_iff_of_nodup (nodup_childNames e) (nodup_childNames e')).mpr fun name => ?_
  rw [mem_childNames, mem_childNames, hnames, hnames, (hchildren.map _).mem_iff]

theorem emptyFindings_perm (hchildren : (outlines e.children).Perm (outlines e'.children)) :
    (emptyFindings e).Perm (emptyFindings e') := by
  rw [emptyFindings_eq_outlines, emptyFindings_eq_outlines]
  exact (hchildren.filter _).map _

theorem childFindings_perm (hname : e.name = e'.name)
    (hchildren : (outlines e.children).Perm (outlines e'.children)) :
    (childFindings g ruleset e).Perm (childFindings g ruleset e') := by
  have hcount : e.count = e'.count := by
    funext name
    rw [count_eq_outlines, count_eq_outlines, (hchildren.filter _).length_eq]
  unfold childFindings
  cases g.childRules? ruleset with
  | none => rw [isEmpty_eq_outlines, isEmpty_eq_outlines, hchildren.isEmpty_eq, hname]
  | some rules =>
      cases rules with
      | wildcard => exact .refl _
      | declared rules =>
          simp only [multiplicityFinding?_congr hname hcount, nameFinding?_congr hname hcount]
          exact ((List.Perm.refl _).append ((childNames_perm hchildren).filterMap _)).append
            (emptyFindings_perm hchildren)

theorem run_defaultHooks_perm (hname : e.name = e'.name)
    (hattributes : e.attributes.Perm e'.attributes) :
    (defaultHooks.run e).Perm (defaultHooks.run e') := by
  have hlink : (e.attr? "link").isNone = (e'.attr? "link").isNone := by
    rw [Bool.eq_iff_iff, Option.isNone_iff_eq_none, Option.isNone_iff_eq_none]
    simp only [Element.attr?, List.lookup_eq_none_iff, hattributes.mem_iff]
  rw [run_defaultHooks, run_defaultHooks, hname]
  unfold menuHook
  rw [hlink]
  split
  · split
    · exact .refl _
    · exact (hattributes.filter _).map _
  · exact .refl _

/-! ## What is found from an element on -/

/-- All that is found at the stops of the descent from an element. -/
def found (g : Grammar) (h : Hooks) (ruleset : String) (e : Element) : List Diagnostic :=
  (visits g ruleset e).flatMap (Visit.findings g h)

/-- All that is found from a child on, if the ruleset of its parent leads to it. -/
def foundBelow (g : Grammar) (h : Hooks) (ruleset : String) (c : Element) : List Diagnostic :=
  match g.resolve? ruleset c.name with
  | some inner => found g h inner c
  | none => []

theorem flatMap_findings_childVisits (h : Hooks) (cs : List Element) (k : Nat) :
    (childVisits g ruleset k cs).flatMap (Visit.findings g h) =
      cs.flatMap (foundBelow g h ruleset) := by
  induction cs generalizing k with
  | nil => rfl
  | cons c cs ih =>
      rw [childVisits, List.flatMap_append, List.flatMap_cons, ih, foundBelow]
      cases g.resolve? ruleset c.name with
      | none => rfl
      | some inner =>
          rw [List.flatMap_map]
          rfl

theorem found_eq (h : Hooks) (ruleset : String) (e : Element) :
    found g h ruleset e = attributeFindings g ruleset e ++ childFindings g ruleset e ++ h.run e ++
      e.children.flatMap (foundBelow g h ruleset) := by
  rw [found, visits_eq, List.flatMap_cons, flatMap_findings_childVisits]
  rfl

theorem flatMap_perm_of_forall₂ {α β : Type} {R : α → α → Prop} {f : α → List β}
    {items items' : List α} (hitems : List.Forall₂ R items items')
    (hf : ∀ a ∈ items, ∀ a', R a a' → (f a).Perm (f a')) :
    (items.flatMap f).Perm (items'.flatMap f) := by
  induction hitems with
  | nil => exact .refl _
  | @cons a a' items items' hhead _ ih =>
      rw [List.flatMap_cons, List.flatMap_cons]
      exact (hf a List.mem_cons_self a' hhead).append
        (ih fun b hb => hf b (List.mem_cons_of_mem a hb))

theorem Reordered.found_perm (h : Reordered e e') (ruleset : String) :
    (found g defaultHooks ruleset e).Perm (found g defaultHooks ruleset e') := by
  -- by size, as the children are known only as members of a list
  induction hn : sizeOf e using Nat.strongRecOn generalizing ruleset e e' with
  | ind n ih =>
      subst hn
      obtain ⟨moved, hmoved, hbelow⟩ := h.exists_moved
      have hown :
          (attributeFindings g ruleset e ++ childFindings g ruleset e ++ defaultHooks.run e).Perm
          (attributeFindings g ruleset e' ++ childFindings g ruleset e' ++ defaultHooks.run e') :=
        ((attributeFindings_perm h.name_eq h.attributes_perm).append
          (childFindings_perm h.name_eq h.outlines_perm)).append
          (run_defaultHooks_perm h.name_eq h.attributes_perm)
      rw [found_eq, found_eq]
      refine hown.append ((hmoved.flatMap_right _).trans (flatMap_perm_of_forall₂ hbelow ?_))
      intro c hc c' hcc'
      have hlt := Element.sizeOf_lt_of_mem_children (hmoved.mem_iff.mpr hc)
      rw [foundBelow, foundBelow, hcc'.name_eq]
      cases g.resolve? ruleset c'.name with
      | none => exact .refl _
      | some inner => exact ih _ hlt hcc' inner rfl

theorem ofSeverity_eq_filter_found (h : Hooks) (root : Element) (s : Severity) :
    (validateDocument g h root).ofSeverity s =
      (found g h rootRuleset root).filter (·.severity = s) := by
  rw [ofSeverity_validateDocument, found, List.filter_flatMap]

/-- Documents that differ in the order of attributes and children only have the same findings of each
severity, each as often. -/
theorem perm_validateDocument_of_reordered (g : Grammar) {root root' : Element}
    (h : Reordered root root') (s : Severity) :
    ((validateDocument g defaultHooks root).ofSeverity s).Perm
      ((validateDocument g defaultHooks root').ofSeverity s) := by
  rw [ofSeverity_eq_filter_found, ofSeverity_eq_filter_found]
  exact (h.found_perm rootRuleset).filter _

/-- At two levels the attributes and the children change places, and with them the warnings of the menu
and the notices. -/
theorem perm_validateDocument_of_reordered_menu :
    let g : Grammar := {
      children := [("extension", .declared [⟨⟨none, "name"⟩, .requiredSingle⟩,
        ⟨⟨none, "menu"⟩, .optionalSingle⟩]), ("menu", .declared [])] }
    let a : Element := .node "a" [] [] "1"
    let b : Element := .node "b" [] [] ""
    let root : Element := .node "extension" [("x", "1"), ("y", "2")]
      [.node "menu" [("link", "l"), ("task", "t"), ("view", "v")] [a, b] "", b] ""
    let root' : Element := .node "extension" [("y", "2"), ("x", "1")]
      [b, .node "menu" [("view", "v"), ("link", "l"), ("task", "t")] [b, a] ""] ""
    Reordered root root' ∧
      (validateDocument g defaultHooks root).warnings ≠
        (validateDocument g defaultHooks root').warnings ∧
      ∀ s, ((validateDocument g defaultHooks root).ofSeverity s).Perm
        ((validateDocument g defaultHooks root').ofSeverity s) := by
  intro g a b root root'
  have ha : Reordered a a := .node .nil .nil .nil
  have hb : Reordered b b := .node .nil .nil .nil
  have hattributes : List.Perm [("link", "l"), ("task", "t"), ("view", "v")]
      [("view", "v"), ("link", "l"), ("task", "t")] := by decide
  have hmenu : Reordered
      (.node "menu" [("link", "l"), ("task", "t"), ("view", "v")] [a, b] "")
      (.node "menu" [("view", "v"), ("link", "l"), ("task", "t")] [b, a] "") :=
    .node hattributes (.swap b a []) (.cons hb (.cons ha .nil))
  have hroot : Reordered root root' :=
    .node (.swap _ _ []) (.swap _ _ []) (.cons hb (.cons hmenu .nil))
  exact ⟨hroot, by decide, perm_validateDocument_of_reordered g hroot⟩

end ExtensionLint.Manifest
