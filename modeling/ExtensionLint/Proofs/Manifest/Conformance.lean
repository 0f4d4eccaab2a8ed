import ExtensionLint.Proofs.Manifest.Descent

/-!
# Conformance to a grammar

`Conforms` says, by recursion on the tree, when an element is as a ruleset wants it. Validation finds
nothing exactly in conforming trees, apart from what the hooks find, and its errors are exactly the
wrong numbers of children (`validateDocument_verdict`).
-/

namespace ExtensionLint.Manifest

open Markup

/-! ## The last rule for a name -/

/-- The rule is the last one that is declared for elements of the name. -/
def LastRule (rules : List ChildRule) (name : String) (rule : ChildRule) : Prop :=
  ∃ before after, rules = before ++ rule :: after ∧ rule.key.element = name ∧
    ∀ r ∈ after, r.key.element ≠ name

theorem resolve?_declared_eq_some_iff {rules : List ChildRule} {name : String} {rule : ChildRule} :
    (ChildRules.declared rules).resolve? name = some rule ↔ LastRule rules name rule := by
  simp only [ChildRules.resolve?, List.find?_eq_some_iff_append, decide_eq_true_eq, LastRule,
    Bool.not_eq_true', decide_eq_false_iff_not]
  constructor
  · rintro ⟨hname, after, before, hrev, hafter⟩
    refine ⟨before.reverse, after.reverse, ?_, hname, fun r hr => hafter r (List.mem_reverse.mp hr)⟩
    rw [← List.reverse_reverse rules, hrev]
    simp
  · rintro ⟨before, after, rfl, hname, hafter⟩
    exact ⟨hname, after.reverse, before.reverse, by simp,
      fun r hr => hafter r (List.mem_reverse.mp hr)⟩

theorem LastRule.unique {rules : List ChildRule} {name : String} {rule rule' : ChildRule}
    (h : LastRule rules name rule) (h' : LastRule rules name rule') : rule = rule' := by
  rw [← resolve?_declared_eq_some_iff] at h h'
  exact Option.some.inj (h.symm.trans h')

theorem resolve?_declared_eq_none_iff {rules : List ChildRule} {name : String} :
    (ChildRules.declared rules).resolve? name = none ↔ ∀ rule ∈ rules, rule.key.element ≠ name := by
  simp [ChildRules.resolve?]

/-- Where no rules are declared, no child is looked into. -/
theorem resolve?_eq_some_iff {g : Grammar} {ruleset name inner : String} :
    g.resolve? ruleset name = some inner ↔ ∃ rules rule,
      g.childRules? ruleset = some (.declared rules) ∧ LastRule rules name rule ∧
        rule.key.ruleset = inner := by
  simp only [Grammar.resolve?, Option.map_eq_some_iff, Option.bind_eq_some_iff]
  constructor
  · rintro ⟨rule, ⟨rules, hg, hrule⟩, hinner⟩
    cases rules with
    | wildcard => simp [ChildRules.resolve?] at hrule
    | declared rules => exact ⟨rules, rule, hg, resolve?_declared_eq_some_iff.mp hrule, hinner⟩
  · rintro ⟨rules, rule, hg, hrule, hinner⟩
    exact ⟨rule, ⟨.declared rules, hg, resolve?_declared_eq_some_iff.mpr hrule⟩, hinner⟩

/-! ## Conforming elements -/

/-- The element has no attributes but those that the ruleset allows. -/
def AttributesConform (g : Grammar) (ruleset : String) (e : Element) : Prop :=
  match g.attributeRules? ruleset with
  | some .any => True
  | some (.allowed names) => ∀ a ∈ e.attributes, a.1 ∈ names
  | none => e.attributes = []

/-- The children of the element are as declared rules want them, whatever stands inside them. -/
structure Tally (rules : List ChildRule) (e : Element) : Prop where
  single : ∀ rule ∈ rules, rule.mode = .requiredSingle ∨ rule.mode = .recommendedSingle →
    e.count rule.key.element = 1
  known : ∀ c ∈ e.children, ∃ rule, LastRule rules c.name rule
  optional : ∀ c ∈ e.children, ∀ rule, LastRule rules c.name rule → rule.mode = .optionalSingle →
    e.count c.name ≤ 1
  filled : ∀ c ∈ e.children, c.isEmpty = false

mutual
/-- The element is as the ruleset wants it, and so are the elements inside it that the ruleset leads
to. -/
def Conforms (g : Grammar) (ruleset : String) : Element → Prop
  | .node name attributes children text =>
    AttributesConform g ruleset (.node name attributes children text) ∧
      match g.childRules? ruleset with
      | none => children = []
      | some .wildcard => True
      | some (.declared rules) =>
        Tally rules (.node name attributes children text) ∧ ChildrenConform g rules children

/-- Each of the children conforms to the ruleset that the last rule for its name leads to. -/
def ChildrenConform (g : Grammar) (rules : List ChildRule) : List Element → Prop
  | [] => True
  | c :: cs =>
    (∃ rule, LastRule rules c.name rule ∧ Conforms g rule.key.ruleset c) ∧ ChildrenConform g rules cs
end

/-- The part of conformance that concerns the element alone. -/
def ConformsItself (g : Grammar) (ruleset : String) (e : Element) : Prop :=
  AttributesConform g ruleset e ∧
    match g.childRules? ruleset with
    | none => e.children = []
    | some .wildcard => True
    | some (.declared rules) => Tally rules e

variable {g : Grammar} {ruleset : String} {e : Element}

theorem childrenConform_iff {rules : List ChildRule} {cs : List Element} :
    ChildrenConform g rules cs ↔
      ∀ c ∈ cs, ∃ rule, LastRule rules c.name rule ∧ Conforms g rule.key.ruleset c := by
  induction cs with
  | nil => simp [ChildrenConform]
  | cons c cs ih => simp only [ChildrenConform, ih, List.forall_mem_cons]

/-- An element conforms if it does so itself, and so do the children that its ruleset leads to. -/
theorem conforms_iff_itself : Conforms g ruleset e ↔ ConformsItself g ruleset e ∧
    ∀ c ∈ e.children, ∀ inner, g.resolve? ruleset c.name = some inner → Conforms g inner c := by
  obtain ⟨name, attributes, children, text⟩ := e
  simp only [Conforms, ConformsItself, and_assoc, Element.children]
  refine and_congr_right fun _ => ?_
  cases hg : g.childRules? ruleset with
  | none => simp +contextual [Grammar.resolve?, hg]
  | some rules =>
      cases rules with
      | wildcard => simp [Grammar.resolve?, hg, ChildRules.resolve?]
      | declared rules =>
          simp only [childrenConform_iff]
          refine and_congr_right fun htally => ⟨?_, ?_⟩
          · intro hc c hmem inner hinner
            obtain ⟨rules', rule, hg', hrule, rfl⟩ := resolve?_eq_some_iff.mp hinner
            cases hg.symm.trans hg'
            obtain ⟨rule', hrule', hconf⟩ := hc c hmem
            cases hrule.unique hrule'
            exact hconf
          · intro hc c hmem
            obtain ⟨rule, hrule⟩ := htally.known c hmem
            exact ⟨rule, hrule, hc c hmem _ (resolve?_eq_some_iff.mpr ⟨rules, rule, hg, hrule, rfl⟩)⟩

/-- Conformance is conformance of each element that the descent reaches. -/
theorem conforms_iff_visits : ∀ {ruleset : String} {e : Element},
    Conforms g ruleset e ↔ ∀ v ∈ visits g ruleset e, ConformsItself g v.ruleset v.element := by
  intro ruleset e
  -- by size, as the children are known only as members of a list
  induction hn : sizeOf e using Nat.strongRecOn generalizing ruleset e with
  | ind n ih =>
      subst hn
      rw [conforms_iff_itself, forall_visits_iff]
      refine and_congr_right fun _ => forall₂_congr fun c hc => forall₂_congr fun inner _ => ?_
      exact ih _ (Element.sizeOf_lt_of_mem_children hc) rfl

/-! ## The checks find what does not conform -/

theorem attributeFindings_eq_nil_iff :
    attributeFindings g ruleset e = [] ↔ AttributesConform g ruleset e := by
  simp only [attributeFindings, AttributesConform, List.map_eq_nil_iff, List.filter_eq_nil_iff,
    Prod.forall]
  cases g.attributeRules? ruleset with
  | none => simp [List.eq_nil_iff_forall_not_mem]
  | some rules => cases rules <;> simp [AttributeRules.allows]

theorem multiplicityFinding?_eq_none_iff {rule : ChildRule} :
    multiplicityFinding? e rule = none ↔
      (rule.mode = .requiredSingle ∨ rule.mode = .recommendedSingle →
        e.count rule.key.element = 1) := by
  simp only [multiplicityFinding?]
  split <;> simp_all

theorem mem_childNames {name : String} :
    name ∈ childNames e ↔ name ∈ e.children.map Element.name := by
  -- the fold goes on from the names found so far
  suffices h : ∀ (cs : List Element) (names : List String),
      name ∈ cs.foldl (fun names c => if names.contains c.name then names else names ++ [c.name]) names ↔
        name ∈ names ∨ name ∈ cs.map Element.name by
    simpa [childNames] using h e.children []
  intro cs
  induction cs with
  | nil => simp
  | cons c cs ih =>
      intro names
      rw [List.foldl_cons, ih, List.map_cons, List.mem_cons]
      by_cases hc : c.name ∈ names
      · have hname : name = c.name → name ∈ names := fun h => h ▸ hc
        simp only [List.contains_eq_mem, hc, decide_true, ↓reduceIte]
        grind
      · simp only [List.contains_eq_mem, hc, decide_false, Bool.false_eq_true, ↓reduceIte,
          List.mem_append, List.mem_singleton, or_assoc]

theorem nameFinding?_eq_none_iff {rules : List ChildRule} {name : String} :
    nameFinding? (.declared rules) e name = none ↔
      ∃ rule, LastRule rules name rule ∧ (rule.mode = .optionalSingle → e.count name ≤ 1) := by
  unfold nameFinding?
  cases hr : (ChildRules.declared rules).resolve? name with
  | none => simp [← resolve?_declared_eq_some_iff, hr]
  | some rule => simp [← resolve?_declared_eq_some_iff, hr]

theorem tally_iff {rules : List ChildRule} :
    Tally rules e ↔ rules.filterMap (multiplicityFinding? e) = [] ∧
      (childNames e).filterMap (nameFinding? (.declared rules) e) = [] ∧ emptyFindings e = [] := by
  simp only [List.filterMap_eq_nil_iff, multiplicityFinding?_eq_none_iff, nameFinding?_eq_none_iff,
    mem_childNames, List.forall_mem_map, emptyFindings, List.map_eq_nil_iff, List.filter_eq_nil_iff,
    Bool.not_eq_true]
  constructor
  · intro ht
    refine ⟨ht.single, fun c hc => ?_, ht.filled⟩
    obtain ⟨rule, hrule⟩ := ht.known c hc
    exact ⟨rule, hrule, ht.optional c hc rule hrule⟩
  · rintro ⟨hsingle, hnames, hfilled⟩
    refine ⟨hsingle, fun c hc => ?_, fun c hc rule hrule hmode => ?_, hfilled⟩
    · obtain ⟨rule, hrule, _⟩ := hnames c hc
      exact ⟨rule, hrule⟩
    · obtain ⟨rule', hrule', hcount⟩ := hnames c hc
      cases hrule.unique hrule'
      exact hcount hmode

theorem childFindings_eq_nil_iff : childFindings g ruleset e = [] ↔
    match g.childRules? ruleset with
    | none => e.children = []
    | some .wildcard => True
    | some (.declared rules) => Tally rules e := by
  unfold childFindings
  cases g.childRules? ruleset with
  | none => cases e.children <;> simp
  | some rules =>
      cases rules with
      | wildcard => simp
      | declared rules => simp only [tally_iff, List.append_eq_nil_iff, and_assoc]

/-- The two checks of an element are silent exactly if it conforms itself. -/
theorem checks_eq_nil_iff (v : Visit) (h : Hooks) : v.findings g h = [] ↔
    ConformsItself g v.ruleset v.element ∧ h.run v.element = [] := by
  simp only [Visit.findings, List.append_eq_nil_iff, attributeFindings_eq_nil_iff,
    childFindings_eq_nil_iff, ConformsItself]

/-! ## Errors -/

/-- The error for a rule that wants exactly one child. -/
def requiredError? (e : Element) (rule : ChildRule) : Option Diagnostic :=
  match e.count rule.key.element with
  | 0 => some (.error (.missingRequired e.name rule.key.element))
  | 1 => none
  | _ => some (.error (.multipleFound e.name rule.key.element))

/-- The error for a name of which the last rule allows at most one child. -/
def repeatedError? (rules : List ChildRule) (e : Element) (name : String) : Option Diagnostic :=
  match (ChildRules.declared rules).resolve? name with
  | some rule =>
    if rule.mode = .optionalSingle ∧ 1 < e.count name then some (.error (.multipleFound e.name name))
    else none
  | none => none

/-- The errors in the numbers of children at a stop: those for the rules in their order, then those for
the names in the order of their first appearance. -/
def numberErrors (g : Grammar) (v : Visit) : List Diagnostic :=
  match g.childRules? v.ruleset with
  | some (.declared rules) =>
    (rules.filter (·.mode = .requiredSingle)).filterMap (requiredError? v.element) ++
      (childNames v.element).filterMap (repeatedError? rules v.element)
  | _ => []

/-- No child that must occur once is missing or repeated, and none that may occur once is repeated. -/
def NumbersConform (g : Grammar) (v : Visit) : Prop :=
  ∀ rules, g.childRules? v.ruleset = some (.declared rules) →
    (∀ rule ∈ rules, rule.mode = .requiredSingle → v.element.count rule.key.element = 1) ∧
    ∀ c ∈ v.element.children, ∀ rule, LastRule rules c.name rule → rule.mode = .optionalSingle →
      v.element.count c.name ≤ 1

theorem filter_multiplicityFinding? (rule : ChildRule) :
    (multiplicityFinding? e rule).filter (·.severity = .error) =
      if rule.mode = .requiredSingle then requiredError? e rule else none := by
  simp only [multiplicityFinding?, requiredError?]
  split <;> simp_all [Diagnostic.error, Diagnostic.warning, Diagnostic.notice]

theorem filter_nameFinding? (rules : List ChildRule) (name : String) :
    (nameFinding? (.declared rules) e name).filter (·.severity = .error) =
      repeatedError? rules e name := by
  unfold nameFinding? repeatedError?
  cases (ChildRules.declared rules).resolve? name with
  | none => rfl
  | some rule => dsimp only; split <;> rfl

theorem filter_attributeFindings :
    (attributeFindings g ruleset e).filter (·.severity = .error) = [] := by
  simp [attributeFindings, List.filter_map, Function.comp_def, Diagnostic.notice]

theorem filter_emptyFindings : (emptyFindings e).filter (·.severity = .error) = [] := by
  simp [emptyFindings, List.filter_map, Function.comp_def, Diagnostic.notice]

theorem run_defaultHooks (e : Element) :
    defaultHooks.run e = if e.name = "menu" then menuHook e else [] := by
  simp only [Hooks.run, Hooks.find?, defaultHooks, Hooks.register, Data.put, List.lookup_cons,
    List.lookup_nil]
  cases hname : e.name == "menu" with
  | true => rw [if_pos (beq_iff_eq.mp hname)]
  | false => rw [if_neg (beq_eq_false_iff_ne.mp hname)]

/-- The usual hooks find nothing but warnings. -/
theorem filter_run_defaultHooks : (defaultHooks.run e).filter (·.severity = .error) = [] := by
  have hmenu : (menuHook e).filter (·.severity = .error) = [] := by
    unfold menuHook
    split <;> simp [List.filter_map, Function.comp_def, Diagnostic.warning]
  rw [run_defaultHooks]
  split
  · exact hmenu
  · rfl

theorem filter_childFindings (v : Visit) :
    (childFindings g v.ruleset v.element).filter (·.severity = .error) = numberErrors g v := by
  unfold childFindings numberErrors
  cases g.childRules? v.ruleset with
  | none => cases v.element.children <;> simp [Diagnostic.notice]
  | some rules =>
      cases rules with
      | wildcard => rfl
      | declared rules =>
          simp only [List.filter_append, List.filter_filterMap, filter_multiplicityFinding?,
            filter_nameFinding?, filter_emptyFindings, List.append_nil, List.filterMap_filter,
            decide_eq_true_eq]

theorem requiredError?_eq_none_iff {rule : ChildRule} :
    requiredError? e rule = none ↔ e.count rule.key.element = 1 := by
  unfold requiredError?
  split <;> simp_all

theorem repeatedError?_eq_none_iff {rules : List ChildRule} {name : String} :
    repeatedError? rules e name = none ↔
      ∀ rule, LastRule rules name rule → rule.mode = .optionalSingle → e.count name ≤ 1 := by
  unfold repeatedError?
  cases hr : (ChildRules.declared rules).resolve? name with
  | none => simp [← resolve?_declared_eq_some_iff, hr]
  | some rule => simp [← resolve?_declared_eq_some_iff, hr]

theorem numberErrors_eq_nil_iff {v : Visit} : numberErrors g v = [] ↔ NumbersConform g v := by
  unfold numberErrors NumbersConform
  cases g.childRules? v.ruleset with
  | none => simp
  | some rules =>
      cases rules with
      | wildcard => simp
      | declared rules =>
          simp only [List.append_eq_nil_iff, List.filterMap_eq_nil_iff, List.mem_filter,
            decide_eq_true_eq, requiredError?_eq_none_iff, repeatedError?_eq_none_iff,
            mem_childNames, List.forall_mem_map, Option.some.injEq, ChildRules.declared.injEq,
            forall_eq', and_imp]

/-- With the usual hooks, the errors are those in the numbers of children, stop by stop. -/
theorem errors_validateDocument (g : Grammar) (root : Element) :
    (validateDocument g defaultHooks root).errors =
      (visits g rootRuleset root).flatMap (numberErrors g) := by
  calc (validateDocument g defaultHooks root).errors
      = (visits g rootRuleset root).flatMap fun v =>
          (v.findings g defaultHooks).filter (·.severity = .error) :=
        ofSeverity_validateDocument g defaultHooks root .error
    _ = (visits g rootRuleset root).flatMap (numberErrors g) := by
        simp only [Visit.findings, List.filter_append, filter_attributeFindings,
          filter_childFindings, filter_run_defaultHooks, List.nil_append, List.append_nil]

/-- The verdict on a document. It is clean exactly if its root conforms and the hooks find nothing
where the descent comes by. With the usual hooks, its errors are those in the numbers of children, stop
by stop, and there are none exactly if all these numbers conform. -/
theorem validateDocument_verdict (g : Grammar) (h : Hooks) (root : Element) :
    ((validateDocument g h root).isEmpty = true ↔
      Conforms g rootRuleset root ∧ ∀ v ∈ visits g rootRuleset root, h.run v.element = []) ∧
    (validateDocument g defaultHooks root).errors =
      (visits g rootRuleset root).flatMap (numberErrors g) ∧
    ((validateDocument g defaultHooks root).errors = [] ↔
      ∀ v ∈ visits g rootRuleset root, NumbersConform g v) := by
  have herrors := errors_validateDocument g root
  refine ⟨?_, herrors, ?_⟩
  · rw [validateDocument_isEmpty_iff_visits, conforms_iff_visits]
    simp only [checks_eq_nil_iff, forall_and]
  · simp only [herrors, List.flatMap_eq_nil_iff, numberErrors_eq_nil_iff]

end ExtensionLint.Manifest
