import Mathlib.Data.List.Basic
import ExtensionLint.Text.Pattern

/-!
# Patterns

Texts that are written into a pattern are read back as its alternatives, whatever operators they hold
(`read?_anyOf`). A pattern finds something exactly where an alternative occurs, up to case
(`find?_isSome_iff`), and what it finds is such an occurrence (`find?_eq_some`).
-/

namespace ExtensionLint.Text

/-- The texts differ at most in letter case. -/
def EqUpToCase (s t : List Char) : Prop := s.map fold = t.map fold

/-- A part of the text equals the name up to case. -/
def Mentions (text name : List Char) : Prop := ∃ found, found <:+: text ∧ EqUpToCase found name

theorem EqUpToCase.length_eq {s t : List Char} (h : EqUpToCase s t) : s.length = t.length := by
  simpa only [List.length_map] using congrArg List.length h

namespace Pattern

variable {p : Pattern} {text found : List Char}

/-! ## Writing and reading -/

theorem escaped_cons (c : Char) (name : List Char) : escaped (c :: name) =
    (if operators.contains c then ['\\', c] else [c]) ++ escaped name :=
  List.flatMap_cons

theorem readFrom?_plain {c : Char} (h : operators.contains c = false) (s text : List Char)
    (done : List (List Char)) : readFrom? (c :: s) text done = readFrom? s (c :: text) done := by
  have hslash : c ≠ '\\' := by
    rintro rfl
    cases h
  have hbar : c ≠ '|' := by
    rintro rfl
    cases h
  rw [readFrom?.eq_3 _ _ _ _ fun _ _ hc _ => hslash hc, if_neg hbar, h]
  rfl

/-- What is escaped is read as it was. -/
theorem readFrom?_escaped (name rest text : List Char) (done : List (List Char)) :
    readFrom? (escaped name ++ rest) text done = readFrom? rest (name.reverse ++ text) done := by
  induction name generalizing text with
  | nil => rfl
  | cons c name ih =>
      rw [escaped_cons, List.append_assoc, List.reverse_cons, List.append_assoc,
        List.singleton_append]
      cases hc : operators.contains c with
      | true =>
          have hread : readFrom? ('\\' :: c :: (escaped name ++ rest)) text done =
              readFrom? (escaped name ++ rest) (c :: text) done := by
            rw [readFrom?, if_pos hc]
          exact hread.trans (ih (c :: text))
      | false => exact (readFrom?_plain hc _ _ _).trans (ih (c :: text))

theorem readFrom?_anyOf (name : List Char) (names done : List (List Char)) :
    readFrom? (anyOf (name :: names)) [] done = some (done.reverse ++ name :: names) := by
  induction names generalizing name done with
  | nil =>
      have hend := readFrom?_escaped name [] [] done
      rw [List.append_nil, List.append_nil] at hend
      rw [anyOf, List.map_singleton, List.intercalate_singleton, hend, readFrom?,
        List.reverse_reverse, List.reverse_cons]
  | cons name' names ih =>
      have hwritten : anyOf (name :: name' :: names) =
          escaped name ++ '|' :: anyOf (name' :: names) := by
        simp only [anyOf, List.map_cons, List.intercalate_cons_cons, List.append_assoc,
          List.singleton_append]
      rw [hwritten, readFrom?_escaped, List.append_nil,
        readFrom?.eq_3 _ _ _ _ (fun _ _ hc _ => absurd hc (by decide)), if_pos rfl, ih,
        List.reverse_reverse, List.reverse_cons, List.append_assoc, List.singleton_append]

theorem read?_anyOf {names : List (List Char)} (h : names ≠ []) :
    read? (anyOf names) = some ⟨names⟩ := by
  obtain ⟨name, names, rfl⟩ := List.exists_cons_of_ne_nil h
  rw [read?, readFrom?_anyOf]
  rfl

/-! ## Searching -/

theorem matchAt?_eq_some_iff {alternative : List Char} :
    matchAt? alternative text = some found ↔ found <+: text ∧ EqUpToCase found alternative := by
  rw [matchAt?, Option.ite_none_right_eq_some, Option.some.injEq]
  constructor
  · rintro ⟨hcase, rfl⟩
    exact ⟨List.take_prefix _ _, hcase⟩
  · rintro ⟨hfront, hcase⟩
    have hfound : text.take alternative.length = found := by
      rw [← hcase.length_eq]
      exact (List.prefix_iff_eq_take.mp hfront).symm
    rw [hfound]
    exact ⟨hcase, rfl⟩

theorem matchStart?_eq_some (h : p.matchStart? text = some found) :
    found <+: text ∧ ∃ name ∈ p.alternatives, EqUpToCase found name := by
  obtain ⟨name, hname, hmatch⟩ := List.exists_of_findSome?_eq_some h
  obtain ⟨hfront, hcase⟩ := matchAt?_eq_some_iff.mp hmatch
  exact ⟨hfront, name, hname, hcase⟩

theorem matchStart?_isSome {name : List Char} (hname : name ∈ p.alternatives)
    (hfront : found <+: text) (hcase : EqUpToCase found name) :
    (p.matchStart? text).isSome = true := by
  rw [matchStart?, List.findSome?_isSome_iff]
  exact ⟨name, hname, Option.isSome_iff_exists.mpr
    ⟨found, matchAt?_eq_some_iff.mpr ⟨hfront, hcase⟩⟩⟩

theorem find?_eq_some (h : p.find? text = some found) :
    found <:+: text ∧ ∃ name ∈ p.alternatives, EqUpToCase found name := by
  induction text with
  | nil =>
      obtain ⟨hfront, hname⟩ := matchStart?_eq_some h
      exact ⟨List.IsPrefix.isInfix hfront, hname⟩
  | cons c text ih =>
      rw [find?, Option.or_eq_some_iff] at h
      rcases h with h | ⟨_, h⟩
      · obtain ⟨hfront, hname⟩ := matchStart?_eq_some h
        exact ⟨List.IsPrefix.isInfix hfront, hname⟩
      · obtain ⟨hinside, hname⟩ := ih h
        exact ⟨List.infix_cons hinside, hname⟩

theorem find?_isSome_iff :
    (p.find? text).isSome = true ↔ ∃ name ∈ p.alternatives, Mentions text name := by
  constructor
  · intro h
    obtain ⟨found, hfound⟩ := Option.isSome_iff_exists.mp h
    obtain ⟨hinside, name, hname, hcase⟩ := find?_eq_some hfound
    exact ⟨name, hname, found, hinside, hcase⟩
  · rintro ⟨name, hname, found, hinside, hcase⟩
    induction text with
    | nil =>
        rw [List.infix_nil] at hinside
        exact matchStart?_isSome hname (hinside ▸ List.nil_prefix) hcase
    | cons c text ih =>
        rw [find?, Option.isSome_or, Bool.or_eq_true]
        rcases List.infix_cons_iff.mp hinside with hfront | hinside
        · exact .inl (matchStart?_isSome hname hfront hcase)
        · exact .inr (ih hinside)

end Pattern
end ExtensionLint.Text
