import ExtensionLint.Proofs.Manifest.Coverage

/-!
# Findings in blocks

Validation adds to each list of a bucket what it finds from the root down and looks at nothing that the
list holds. What it finds at and below an element stands together in each list, and is the same wherever
the element is reached under the same ruleset (`validate_appends`).
-/

namespace ExtensionLint.Manifest

open Markup

variable {g : Grammar} {h : Hooks} {ruleset : String} {e : Element} {v w : Visit} {place : List Nat}

/-! ## The order of the stops -/

mutual
/-- An element comes before all that is below it, and all that is below a child before the next child. -/
theorem pairwise_place_visits (g : Grammar) (ruleset : String) :
    ∀ e, (visits g ruleset e).Pairwise (·.place < ·.place)
  | .node name attributes children text => by
      rw [visits, List.pairwise_cons]
      refine ⟨fun v hv => ?_, pairwise_place_childVisits g ruleset children 0⟩
      obtain ⟨i, c, inner, -, -, w, -, rfl⟩ := mem_childVisits.mp hv
      exact List.nil_lt_cons ..

theorem pairwise_place_childVisits (g : Grammar) (ruleset : String) :
    ∀ cs k, (childVisits g ruleset k cs).Pairwise (·.place < ·.place)
  | [], _ => by
      rw [childVisits]
      exact .nil
  | c :: cs, k => by
      rw [childVisits]
      have hrest := pairwise_place_childVisits g ruleset cs (k + 1)
      cases hc : g.resolve? ruleset c.name with
      | none => exact hrest
      | some inner =>
          refine List.pairwise_append.mpr ⟨?_, hrest, fun v hv w hw => ?_⟩
          · refine List.pairwise_map.mpr ((pairwise_place_visits g inner c).imp fun hlt => ?_)
            exact List.cons_lt_cons_iff.mpr (.inr ⟨rfl, hlt⟩)
          · obtain ⟨v, -, rfl⟩ := List.mem_map.mp hv
            obtain ⟨i, d, inner', -, -, w, -, rfl⟩ := mem_childVisits.mp hw
            exact List.cons_lt_cons_iff.mpr (.inl (by omega))
end

/-! ## The stops of a part of a document -/

/-- The same stop, seen from the root of a document in which the tree that it belongs to has a place. -/
def Visit.under (place : List Nat) (v : Visit) : Visit := { v with place := place ++ v.place }

theorem Visit.under_nil : Visit.under [] = id := rfl

/-- To go on from a place is to go down from the stop there. -/
theorem visitAt?_append (place rest : List Nat) : visitAt? g ruleset e (place ++ rest) =
    (visitAt? g ruleset e place).bind fun v =>
      (visitAt? g v.ruleset v.element rest).map (Visit.under place) := by
  induction place generalizing ruleset e with
  | nil => simp only [List.nil_append, visitAt?, Option.bind_some, Visit.under_nil, Option.map_id, id]
  | cons i place ih =>
      simp only [List.cons_append, visitAt?, ih, Option.bind_assoc, Option.bind_map, Option.map_bind,
        Option.map_map, Function.comp_def, Visit.below_ruleset, Visit.below_element]
      rfl

theorem childVisits_append (cs cs' : List Element) (k : Nat) :
    childVisits g ruleset k (cs ++ cs') =
      childVisits g ruleset k cs ++ childVisits g ruleset (k + cs.length) cs' := by
  induction cs generalizing k with
  | nil => rfl
  | cons c cs ih =>
      rw [List.cons_append, childVisits, childVisits, ih, List.append_assoc, List.length_cons,
        Nat.add_assoc, Nat.add_comm 1]

theorem childVisits_of_getElem? {cs : List Element} {c : Element} {i : Nat} {inner : String}
    (hc : cs[i]? = some c) (hinner : g.resolve? ruleset c.name = some inner) :
    childVisits g ruleset 0 cs = childVisits g ruleset 0 (cs.take i) ++
      (visits g inner c).map (Visit.below i) ++ childVisits g ruleset (i + 1) (cs.drop (i + 1)) := by
  obtain ⟨hi, rfl⟩ := List.getElem?_eq_some_iff.mp hc
  have hlength : (cs.take i).length = i := List.length_take_of_le (Nat.le_of_lt hi)
  calc childVisits g ruleset 0 cs
      = childVisits g ruleset 0 (cs.take i ++ cs[i] :: cs.drop (i + 1)) := by
        rw [← List.drop_eq_getElem_cons hi, List.take_append_drop]
    _ = _ := by
        rw [childVisits_append, hlength, Nat.zero_add, childVisits, hinner, List.append_assoc]

/-- The stops at and below a visited place stand together. -/
theorem exists_visits_eq_append (hv : visitAt? g ruleset e place = some v) :
    ∃ before after, visits g ruleset e =
      before ++ (visits g v.ruleset v.element).map (Visit.under place) ++ after := by
  induction place generalizing ruleset e v with
  | nil =>
      cases hv
      exact ⟨[], [], by simp [Visit.under_nil]⟩
  | cons i place ih =>
      simp only [visitAt?, Option.bind_eq_some_iff, Option.map_eq_some_iff] at hv
      obtain ⟨c, hc, inner, hinner, w, hw, rfl⟩ := hv
      obtain ⟨before, after, hblock⟩ := ih hw
      refine ⟨⟨[], ruleset, e⟩ :: childVisits g ruleset 0 (e.children.take i) ++
        before.map (Visit.below i), after.map (Visit.below i) ++
          childVisits g ruleset (i + 1) (e.children.drop (i + 1)), ?_⟩
      have hmap : (visits g w.ruleset w.element).map (Visit.under (i :: place)) =
          ((visits g w.ruleset w.element).map (Visit.under place)).map (Visit.below i) := by
        rw [List.map_map]
        rfl
      rw [visits_eq, childVisits_of_getElem? hc hinner, hblock, Visit.below_ruleset,
        Visit.below_element, hmap]
      simp only [List.map_append, List.append_assoc, List.cons_append]

/-- No other stop is at or below the place. -/
theorem not_prefix_of_visits_eq_append {before after : List Visit}
    (hv : visitAt? g ruleset e place = some v)
    (hvisits : visits g ruleset e =
      before ++ (visits g v.ruleset v.element).map (Visit.under place) ++ after)
    (hw : w ∈ before ++ after) : ¬ place <+: w.place := by
  rintro ⟨rest, hrest⟩
  have hmem : w ∈ visits g ruleset e := by
    rw [hvisits]
    simp only [List.mem_append] at hw ⊢
    exact hw.elim (.inl ∘ .inl) .inr
  have hblock : w ∈ (visits g v.ruleset v.element).map (Visit.under place) := by
    have hat := mem_visits_iff.mp hmem
    rw [← hrest, visitAt?_append, hv, Option.bind_some] at hat
    obtain ⟨u, hu, rfl⟩ := Option.map_eq_some_iff.mp hat
    obtain ⟨rfl, -⟩ := visitAt?_eq_some_iff.mp hu
    exact List.mem_map_of_mem (mem_visits_iff.mpr hu)
  -- so the stop would come twice, but places increase
  have hsorted := pairwise_place_visits g ruleset e
  rw [hvisits, List.append_assoc, List.pairwise_append, List.pairwise_append] at hsorted
  obtain ⟨-, ⟨-, -, hbehind⟩, hbefore⟩ := hsorted
  rcases List.mem_append.mp hw with hw | hw
  · exact List.lt_irrefl _ (hbefore w hw w (List.mem_append_left _ hblock))
  · exact List.lt_irrefl _ (hbehind w hblock w hw)

/-! ## What is found at stops -/

/-- The findings of one severity at stops, one stop after the other. -/
def findingsAt (g : Grammar) (h : Hooks) (s : Severity) (vs : List Visit) : List Diagnostic :=
  vs.flatMap fun v => (v.findings g h).filter (·.severity = s)

theorem findingsAt_append (s : Severity) (vs ws : List Visit) :
    findingsAt g h s (vs ++ ws) = findingsAt g h s vs ++ findingsAt g h s ws :=
  List.flatMap_append

theorem findingsAt_under (s : Severity) (place : List Nat) (vs : List Visit) :
    findingsAt g h s (vs.map (Visit.under place)) = findingsAt g h s vs :=
  List.flatMap_map ..

theorem ofSeverity_validate_empty (g : Grammar) (h : Hooks) (ruleset : String) (e : Element)
    (s : Severity) :
    (validate g h ruleset e {}).ofSeverity s = findingsAt g h s (visits g ruleset e) := by
  rw [ofSeverity_validate]
  cases s <;> rfl

theorem ofSeverity_validate_eq_append (g : Grammar) (h : Hooks) (ruleset : String) (e : Element)
    (b : Bucket) (s : Severity) : (validate g h ruleset e b).ofSeverity s =
      b.ofSeverity s ++ (validate g h ruleset e {}).ofSeverity s := by
  rw [ofSeverity_validate_empty]
  exact ofSeverity_validate g h ruleset e b s

/-- Validation leaves what a bucket holds in front and adds what it would add to an empty one: for each
stop, an element before its children and these in order, the findings there. What it adds for the part
of the document at and below a stop is one block in each list, and is what validation finds in that part
alone under the ruleset of the stop. -/
theorem validate_appends (g : Grammar) (h : Hooks) (ruleset : String) (e : Element) (b : Bucket) :
    (∀ s, (validate g h ruleset e b).ofSeverity s =
      b.ofSeverity s ++ (validate g h ruleset e {}).ofSeverity s) ∧
    (∀ s, (validate g h ruleset e {}).ofSeverity s =
      (visits g ruleset e).flatMap fun v =>
        (attributeFindings g v.ruleset v.element).filter (·.severity = s) ++
          (childFindings g v.ruleset v.element).filter (·.severity = s) ++
            (h.run v.element).filter (·.severity = s)) ∧
    (visits g ruleset e).Pairwise (·.place < ·.place) ∧
    (∀ v, v ∈ visits g ruleset e ↔ e.at? v.place = some v.element ∧
      rulesetAlong? g ruleset (e.namesTo v.place) = some v.ruleset) ∧
    ∀ v ∈ visits g ruleset e, ∃ before after,
      visits g ruleset e =
        before ++ (visits g v.ruleset v.element).map (Visit.under v.place) ++ after ∧
      (∀ w ∈ before ++ after, ¬ v.place <+: w.place) ∧
      ∀ s, (validate g h ruleset e b).ofSeverity s =
        b.ofSeverity s ++ findingsAt g h s before ++
          (validate g h v.ruleset v.element {}).ofSeverity s ++ findingsAt g h s after := by
  refine ⟨ofSeverity_validate_eq_append g h ruleset e b, fun s => ?_,
    pairwise_place_visits g ruleset e, fun v => ?_, fun v hv => ?_⟩
  · rw [ofSeverity_validate_empty]
    simp only [findingsAt, Visit.findings, List.filter_append]
  · rw [mem_visits_iff, visitAt?_eq_some_iff]
    exact and_iff_right rfl
  · have hat := mem_visits_iff.mp hv
    obtain ⟨before, after, hvisits⟩ := exists_visits_eq_append hat
    refine ⟨before, after, hvisits, fun w => not_prefix_of_visits_eq_append hat hvisits, fun s => ?_⟩
    rw [ofSeverity_validate_eq_append, ofSeverity_validate_empty, ofSeverity_validate_empty, hvisits,
      findingsAt_append, findingsAt_append, findingsAt_under, List.append_assoc, List.append_assoc,
      List.append_assoc]

theorem validate_appends_shared_menu :
    let menu : Element := .node "menu" [("link", "x"), ("view", "y")] [] "Items"
    let root : Element := .node "extension" [] [.node "administration" [] [menu] "", menu] ""
    let g : Grammar := {
      children := [
        ("extension", .declared
          [⟨⟨none, "administration"⟩, .optionalSingle⟩, ⟨⟨none, "menu"⟩, .multiple⟩]),
        ("administration", .declared [⟨⟨none, "menu"⟩, .multiple⟩])]
      attributes := [("menu", .allowed ["link", "view"])] }
    let b : Bucket := ({} : Bucket).push (.warning (.multipleFound "extension" "name"))
    ∀ place ∈ [[0, 0], [1]], ⟨place, "menu", menu⟩ ∈ visits g "extension" root ∧
      ∃ before after, (validate g defaultHooks "extension" root b).warnings =
        b.warnings ++ findingsAt g defaultHooks .warning before ++
          [.warning (.menuUnusedAttribute "view")] ++ findingsAt g defaultHooks .warning after := by
  intro menu root g b place hplace
  have hmem : ⟨place, "menu", menu⟩ ∈ visits g "extension" root := by
    rw [mem_visits_iff]
    rcases List.mem_cons.mp hplace with rfl | hplace
    · rfl
    · rw [List.mem_singleton.mp hplace]
      rfl
  obtain ⟨before, after, -, -, hblock⟩ :=
    (validate_appends g defaultHooks "extension" root b).2.2.2.2 _ hmem
  exact ⟨hmem, before, after, hblock .warning⟩

end ExtensionLint.Manifest
