import ExtensionLint.Manifest.Validation

/-!
# The descent through a manifest

Validation walks down from the root. `visits` lists the elements that it reaches, in the order in which
it reaches them, each with its place in the tree and with the ruleset it is checked against. The bucket
that validation fills is the one that the visits fill, one after the other (`validate_eq_foldl`).
-/

namespace ExtensionLint.Manifest

open Markup

/-- One stop of the descent. The place is the way down to the element, by the positions of children. -/
structure Visit where
  place : List Nat
  ruleset : String
  element : Element

namespace Visit

/-- The same stop, seen from the parent of the tree that it belongs to. -/
def below (i : Nat) (v : Visit) : Visit := { v with place := i :: v.place }

/-- What the stop adds to a bucket. -/
def check (g : Grammar) (h : Hooks) (b : Bucket) (v : Visit) : Bucket :=
  ((b.extend (attributeFindings g v.ruleset v.element)).extend
    (childFindings g v.ruleset v.element)).extend (h.run v.element)

/-- All that is found at the stop. -/
def findings (g : Grammar) (h : Hooks) (v : Visit) : List Diagnostic :=
  attributeFindings g v.ruleset v.element ++ childFindings g v.ruleset v.element ++ h.run v.element

@[simp] theorem below_place (i : Nat) (v : Visit) : (v.below i).place = i :: v.place := rfl

@[simp] theorem below_ruleset (i : Nat) (v : Visit) : (v.below i).ruleset = v.ruleset := rfl

@[simp] theorem below_element (i : Nat) (v : Visit) : (v.below i).element = v.element := rfl

@[simp] theorem check_below (g : Grammar) (h : Hooks) (b : Bucket) (i : Nat) (v : Visit) :
    (v.below i).check g h b = v.check g h b := rfl

theorem check_eq_extend (g : Grammar) (h : Hooks) (b : Bucket) (v : Visit) :
    v.check g h b = b.extend (v.findings g h) := by
  simp only [check, findings, Bucket.extend_append]

end Visit

mutual
/-- The stops of the descent from an element that is checked against a ruleset. -/
def visits (g : Grammar) (ruleset : String) : Element → List Visit
  | .node name attributes children text =>
    ⟨[], ruleset, .node name attributes children text⟩ :: childVisits g ruleset 0 children

/-- The stops at and below children, the first of which has position `i`. -/
def childVisits (g : Grammar) (ruleset : String) (i : Nat) : List Element → List Visit
  | [] => []
  | c :: cs =>
    (match g.resolve? ruleset c.name with
      | some inner => (visits g inner c).map (Visit.below i)
      | none => []) ++ childVisits g ruleset (i + 1) cs
end

theorem visits_eq (g : Grammar) (ruleset : String) (e : Element) :
    visits g ruleset e = ⟨[], ruleset, e⟩ :: childVisits g ruleset 0 e.children := by
  cases e; simp only [visits, Element.children]

variable {g : Grammar} {h : Hooks}

/-! ## What the visits leave in the bucket -/

mutual
/-- Validation is one check for each stop, in order. -/
theorem validate_eq_foldl (g : Grammar) (h : Hooks) (ruleset : String) : ∀ (e : Element) (b : Bucket),
    validate g h ruleset e b = (visits g ruleset e).foldl (Visit.check g h) b
  | .node name attributes children text, b => by
      simp only [validate, visits, List.foldl_cons]
      exact validateChildren_eq_foldl g h ruleset children 0 _

theorem validateChildren_eq_foldl (g : Grammar) (h : Hooks) (ruleset : String) :
    ∀ (cs : List Element) (i : Nat) (b : Bucket),
    validateChildren g h ruleset cs b = (childVisits g ruleset i cs).foldl (Visit.check g h) b
  | [], _, _ => by simp only [validateChildren, childVisits, List.foldl_nil]
  | c :: cs, i, b => by
      simp only [validateChildren, childVisits, List.foldl_append]
      cases hc : g.resolve? ruleset c.name with
      | none => exact validateChildren_eq_foldl g h ruleset cs (i + 1) b
      | some inner =>
          simp only [List.foldl_map, Visit.check_below]
          rw [← validate_eq_foldl g h inner c b]
          exact validateChildren_eq_foldl g h ruleset cs (i + 1) _
end

/-- Validation keeps what the bucket holds and adds, for each severity, the findings of that severity
at every stop. -/
theorem ofSeverity_validate (g : Grammar) (h : Hooks) (ruleset : String) (e : Element) (b : Bucket)
    (s : Severity) :
    (validate g h ruleset e b).ofSeverity s =
      b.ofSeverity s ++ (visits g ruleset e).flatMap fun v =>
        (v.findings g h).filter (·.severity = s) := by
  rw [validate_eq_foldl]
  induction visits g ruleset e generalizing b with
  | nil => simp
  | cons v vs ih =>
      rw [List.foldl_cons, ih, Visit.check_eq_extend, Bucket.ofSeverity_extend]
      simp

theorem ofSeverity_validateDocument (g : Grammar) (h : Hooks) (root : Element) (s : Severity) :
    (validateDocument g h root).ofSeverity s =
      (visits g rootRuleset root).flatMap fun v => (v.findings g h).filter (·.severity = s) := by
  rw [validateDocument, ofSeverity_validate]
  cases s <;> rfl

/-- The bucket stays empty exactly if nothing is found at any stop. -/
theorem validateDocument_isEmpty_iff_visits (g : Grammar) (h : Hooks) (root : Element) :
    (validateDocument g h root).isEmpty = true ↔
      ∀ v ∈ visits g rootRuleset root, v.findings g h = [] := by
  simp only [Bucket.isEmpty_iff, ofSeverity_validateDocument, List.flatMap_eq_nil_iff,
    List.filter_eq_nil_iff, decide_eq_true_eq]
  constructor
  · intro hs v hv
    refine List.eq_nil_iff_forall_not_mem.mpr fun d hd => ?_
    exact hs d.severity v hv d hd rfl
  · intro hv s v hmem d hd
    simp [hv v hmem] at hd

/-! ## Which elements are visited -/

/-- The stops at and below the children are those at and below each child that its name leads to. -/
theorem mem_childVisits {ruleset : String} {v : Visit} {cs : List Element} {k : Nat} :
    v ∈ childVisits g ruleset k cs ↔ ∃ i c inner, cs[i]? = some c ∧
      g.resolve? ruleset c.name = some inner ∧ ∃ w ∈ visits g inner c, v = w.below (k + i) := by
  induction cs generalizing k with
  | nil => simp [childVisits]
  | cons c cs ih =>
      simp only [childVisits, List.mem_append, ih]
      constructor
      · rintro (hv | ⟨i, c', inner, hi, hr, w, hw, rfl⟩)
        · cases hc : g.resolve? ruleset c.name with
          | none => simp [hc] at hv
          | some inner =>
              simp only [hc, List.mem_map] at hv
              obtain ⟨w, hw, rfl⟩ := hv
              exact ⟨0, c, inner, rfl, hc, w, hw, rfl⟩
        · exact ⟨i + 1, c', inner, by simpa using hi, hr, w, hw, by rw [Nat.add_assoc, Nat.add_comm 1]⟩
      · rintro ⟨i, c', inner, hi, hr, w, hw, rfl⟩
        cases i with
        | zero =>
            simp only [List.getElem?_cons_zero, Option.some.injEq] at hi
            subst hi
            left
            simp only [hr, List.mem_map]
            exact ⟨w, hw, rfl⟩
        | succ i =>
            exact Or.inr ⟨i, c', inner, by simpa using hi, hr, w, hw, by
              rw [Nat.add_assoc, Nat.add_comm 1]⟩

/-- What holds at all stops from an element on holds at the element, and at all stops from those of
its children on that its ruleset leads to. -/
theorem forall_visits_iff {ruleset : String} {e : Element} {P : String → Element → Prop} :
    (∀ v ∈ visits g ruleset e, P v.ruleset v.element) ↔
      P ruleset e ∧ ∀ c ∈ e.children, ∀ inner, g.resolve? ruleset c.name = some inner →
        ∀ v ∈ visits g inner c, P v.ruleset v.element := by
  rw [visits_eq, List.forall_mem_cons]
  refine and_congr_right fun _ => ?_
  constructor
  · intro hv c hc inner hr w hw
    obtain ⟨i, hi⟩ := List.mem_iff_getElem?.mp hc
    exact hv (w.below (0 + i)) (mem_childVisits.mpr ⟨i, c, inner, hi, hr, w, hw, rfl⟩)
  · intro hc v hv
    obtain ⟨i, c, inner, hi, hr, w, hw, rfl⟩ := mem_childVisits.mp hv
    exact hc c (List.mem_of_getElem? hi) inner hr w hw

end ExtensionLint.Manifest
