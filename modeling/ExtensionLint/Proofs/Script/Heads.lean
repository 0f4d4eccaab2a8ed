import ExtensionLint.Proofs.Script.Statements

/-!
# Heads of declarations

The head of a declaration is found whole in front of its opening brace (`afterHead?_append`): what may
come next, right away or behind a space, tells for each of its parts where it ends.
-/

namespace ExtensionLint.Script

open Text
open Script.Grammar
open Computability

theorem finds_modifier : Finds (afterOneOf? modifiers) modifier fun _ => True := by
  rintro _ ((rfl | rfl) | rfl) rest _ <;> rfl

theorem finds_declarationKind :
    Finds (afterOneOf? declarationKinds) declarationKind fun _ => True := by
  rintro _ (((rfl | rfl) | rfl) | rfl) rest _ <;> rfl

/-- No kind of declaration is a modifier. -/
theorem drops_modifiers : Drops (fun s => afterModifiers s.length s) modifier∗
    fun rest => ∃ k ∈ declarationKind, ∃ t, rest = k ++ t := by
  refine finds_modifier.star (fun _ => rfl) (fun _ _ => rfl) ?_ fun _ _ _ _ => trivial
  rintro _ ⟨_, ((rfl | rfl) | rfl) | rfl, t, rfl⟩ <;> rfl

section

variable {signs s : List Char} {mark : Char} (h : Opens signs s) (hspace : ' ' ∉ signs)
  (hmark : mark ∉ signs)
include h hspace hmark

/-- A sign with an optional space in front is not found where another one stands. -/
theorem afterMark?_eq_none : afterMark? mark s = none := by
  obtain ⟨c, hc, t, hs⟩ := h
  have hleft : afterSpace s = c :: t := by
    rcases hs with rfl | ⟨_, rfl⟩
    · rfl
    · exact afterSpace_cons_of_ne (ne_of_mem_of_not_mem hc hspace) t
  rw [afterMark?, hleft]
  exact after?_cons_of_ne (ne_of_mem_of_not_mem hc hmark).symm [] t

theorem after?_eq_none {w : String} {further : List Char} (hw : w.toList = ' ' :: mark :: further) :
    after? w.toList s = none := by
  obtain ⟨c, hc, t, hs⟩ := h
  rw [hw]
  rcases hs with rfl | ⟨_, rfl⟩
  · exact after?_cons_of_ne (ne_of_mem_of_not_mem hc hmark).symm further t
  · exact after?_cons_of_ne (ne_of_mem_of_not_mem hc hspace).symm (mark :: further) t

end

/-- A sign and a path, with an optional space in front of either. -/
theorem finds_marked {c : Char} {w : String} (hw : w.toList = [c]) (hc : c ≠ ' ') :
    Finds (fun s => (afterMark? c s).bind fun s => afterSome? isPathChar (afterSpace s))
      (gap * word w * gap * path) (Stops isPathChar) := by
  have hword : Finds (after? [c]) (word w) fun _ => True := hw ▸ finds_word w
  have hmark : Finds (afterMark? c) (gap * word w) fun _ => True := by
    refine drops_gap.comp hword ?_
    rintro _ rfl rest _
    rw [hw]
    exact afterSpace_cons_of_ne hc rest
  have hpath : Precedes path (Stops isPathChar) fun rest => afterSpace rest = rest := by
    rintro a ⟨hne, ha⟩ rest _
    obtain ⟨x, a, rfl⟩ := List.exists_cons_of_ne_nil hne
    refine afterSpace_cons_of_ne ?_ _
    rintro rfl
    cases ha ' ' List.mem_cons_self
  have h := hmark.bind (drops_gap.comp (finds_run isPathChar) hpath) fun _ _ _ _ => trivial
  rw [← mul_assoc] at h
  exact h

/-- The list goes on as long as commas follow. -/
theorem finds_nameList {w : String} {signs : List Char} (hspace : ' ' ∉ signs) (hcomma : ',' ∉ signs) :
    Finds (afterNameList? w.toList) (word w * nameList) (Opens signs) := by
  have hmarked : Finds afterFurtherName? (gap * word "," * gap * path) (Stops isPathChar) :=
    finds_marked rfl (by decide)
  have hfurther : Precedes (gap * word "," * gap * path)∗ (Opens signs) (Stops isPathChar) := by
    refine .star (fun rest hrest => stops_of_opens hrest) ?_
    rintro _ ⟨_, ⟨_, ⟨g, hg, _, rfl, rfl⟩, g', _, rfl⟩, a, _, rfl⟩ rest _
    simp only [List.append_assoc]
    exact stops_of_opens (precedes_gap rfl g hg _ ⟨_, rfl⟩)
  have hloop : Drops (fun s => afterFurtherNames s.length s) (gap * word "," * gap * path)∗
      (Opens signs) := by
    refine hmarked.star (fun _ => rfl) (fun _ _ => rfl) (fun rest hrest => ?_) hfurther
    exact congrArg (Option.bind · _) (afterMark?_eq_none hrest hspace hcomma)
  exact (finds_word w).bind ((finds_run isPathChar).bind hloop.finds hfurther) fun _ _ _ _ => trivial

theorem drops_bases : Drops
    (fun s => afterSpace (afterOptional (afterNameList? " implements ".toList)
      (afterOptional (afterNameList? " extends ".toList) (afterOptional afterBackingType? s))))
    ((1 + backingType) * ((1 + word " extends " * nameList) * (1 + word " implements " * nameList)) * gap)
    (fun rest => ∃ t, rest = '{' :: t) ∧
    Precedes
      ((1 + backingType) * ((1 + word " extends " * nameList) * (1 + word " implements " * nameList)) * gap)
      (fun rest => ∃ t, rest = '{' :: t) (Stops isNameChar) := by
  -- from the brace back: what may come first behind each part
  have hbrace := precedes_gap (c := '{') rfl
  have himplements : Drops (afterOptional (afterNameList? " implements ".toList))
      (1 + word " implements " * nameList) (Opens ['{']) := by
    refine (finds_nameList (by decide) (by decide)).optional fun rest hrest => ?_
    exact congrArg (Option.bind · _) (after?_eq_none hrest (by decide) (by decide) rfl)
  have hextends : Drops (afterOptional (afterNameList? " extends ".toList))
      (1 + word " extends " * nameList) (Opens ['i', '{']) := by
    refine (finds_nameList (by decide) (by decide)).optional fun rest hrest => ?_
    exact congrArg (Option.bind · _) (after?_eq_none hrest (by decide) (by decide) rfl)
  have hbacking : Drops (afterOptional afterBackingType?) (1 + backingType) (Opens ['e', 'i', '{']) := by
    have hfinds : Finds afterBackingType? backingType (Stops isPathChar) := finds_marked rfl (by decide)
    refine (hfinds.mono fun rest hrest => stops_of_opens hrest).optional fun rest hrest => ?_
    exact congrArg (Option.bind · _) (afterMark?_eq_none hrest (by decide) (by decide))
  have hopenImplements : Precedes (1 + word " implements " * nameList) (Opens ['{'])
      (Opens ['i', '{']) := precedes_optional rfl nameList
  have hopenExtends : Precedes (1 + word " extends " * nameList) (Opens ['i', '{'])
      (Opens ['e', 'i', '{']) := precedes_optional rfl nameList
  have hopenBacking : Precedes (1 + backingType) (Opens ['e', 'i', '{']) (Stops isNameChar) := by
    refine .add (.one fun rest hrest => stops_isNameChar (stops_of_opens hrest)) ?_
    rintro _ ⟨_, ⟨_, ⟨g, hg, _, rfl, rfl⟩, g', _, rfl⟩, a, _, rfl⟩ rest _
    simp only [List.append_assoc]
    exact stops_isNameChar (stops_of_opens (precedes_gap rfl g hg _ ⟨_, rfl⟩))
  have hspace : Drops afterSpace gap fun rest => ∃ t, rest = '{' :: t := by
    rintro g hg _ ⟨t, rfl⟩
    exact drops_gap g hg _ (afterSpace_cons_of_ne (by decide) t)
  have hopenBases := hopenExtends.mul hopenImplements
  exact ⟨(hbacking.trans (hextends.trans himplements hopenImplements) hopenBases).trans hspace hbrace,
    (hopenBacking.mul hopenBases).mul hbrace⟩

theorem afterHead?_append {a : List Char} (ha : a ∈ head) (t : List Char) :
    afterHead? (a ++ '{' :: t) = some ('{' :: t) := by
  obtain ⟨hbases, hopen⟩ := drops_bases
  have hkind := drops_modifiers.comp finds_declarationKind fun k hk t _ => ⟨k, hk, t, rfl⟩
  have hfinds := hkind.bind ((finds_run isNameChar).bind hbases.finds hopen) fun _ _ _ _ => trivial
  have hmem : a ∈ modifier∗ * declarationKind * (name * ((1 + backingType) *
      ((1 + word " extends " * nameList) * (1 + word " implements " * nameList)) * gap)) := by
    simp only [head, ← mul_assoc] at ha ⊢
    exact ha
  obtain ⟨u, hu, hrest⟩ := Option.bind_eq_some_iff.mp (hfinds a hmem _ ⟨t, rfl⟩)
  obtain ⟨v, hv, hrest⟩ := Option.bind_eq_some_iff.mp hrest
  refine Option.bind_eq_some_iff.mpr ⟨u, hu, Option.bind_eq_some_iff.mpr ⟨v, hv, ?_⟩⟩
  dsimp only
  rw [Option.some.inj hrest]
  rfl

end ExtensionLint.Script
