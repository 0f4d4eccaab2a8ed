import ExtensionLint.Text.Blank

/-!
# Collapsing blanks

To collapse the blanks of a text is to read it from left to right and to write one space before each
word but the first (`collapse_eq_tidy`).
-/

namespace ExtensionLint.Text

/-- A run of items of one kind ends where an item of another kind or nothing follows. -/
theorem span_append {α : Type} {p : α → Bool} {run behind : List α} (hrun : ∀ a ∈ run, p a = true)
    (hbehind : behind.head?.any p = false) :
    (run ++ behind).takeWhile p = run ∧ (run ++ behind).dropWhile p = behind := by
  rw [List.takeWhile_append_of_pos hrun, List.dropWhile_append_of_pos hrun]
  cases behind with
  | nil => exact ⟨List.append_nil run, rfl⟩
  | cons a behind =>
      have ha : ¬ p a = true := by simpa using hbehind
      rw [List.takeWhile_cons_of_neg ha, List.dropWhile_cons_of_neg ha]
      exact ⟨List.append_nil run, rfl⟩

theorem head?_dropWhile_any {α : Type} (p : α → Bool) (l : List α) :
    (l.dropWhile p).head?.any p = false := by
  have h := List.head?_dropWhile_not p l
  cases hhead : (l.dropWhile p).head? with
  | none => rfl
  | some a => simpa [hhead] using h

/-- Where a text is read as its blanks collapse. -/
inductive Spacing
  /-- Before the first word. -/
  | fresh
  /-- Right behind a character of a word. -/
  | tight
  /-- Behind a blank that follows a word. -/
  | loose

namespace Spacing

def blank : Spacing → Spacing
  | fresh => fresh
  | tight | loose => loose

/-- What is written before the next character of a word. -/
def gap : Spacing → List Char
  | fresh | tight => []
  | loose => [' ']

end Spacing

/-- The text as its blanks collapse. A space is only written when a word follows. -/
def tidy : Spacing → List Char → List Char
  | _, [] => []
  | spacing, c :: s =>
    if isBlank c then tidy spacing.blank s else spacing.gap ++ c :: tidy .tight s

theorem tidy_blank {c : Char} (h : isBlank c = true) (spacing : Spacing) (s : List Char) :
    tidy spacing (c :: s) = tidy spacing.blank s := if_pos h

theorem tidy_visible {c : Char} (h : isBlank c = false) (spacing : Spacing) (s : List Char) :
    tidy spacing (c :: s) = spacing.gap ++ c :: tidy .tight s := if_neg (Bool.eq_false_iff.mp h)

/-! ## Words -/

theorem cutAt_done (separates : Char → Bool) (s part : List Char) (done : List (List Char)) :
    cutAt separates s part done = done.reverse ++ cutAt separates s part [] := by
  induction s generalizing part done with
  | nil => simp [cutAt]
  | cons c s ih =>
      rw [cutAt, cutAt]
      split
      · rw [ih [] (part.reverse :: done), ih [] [part.reverse]]
        simp
      · exact ih (c :: part) done

/-- The words of a text of which a first part has been read; `part` holds, reversed, the word that it
breaks off in. -/
def wordsFrom (part s : List Char) : List (List Char) :=
  (cutAt isBlank s part []).filter fun w => !w.isEmpty

theorem wordsFrom_blank {c : Char} (h : isBlank c = true) (part s : List Char) :
    wordsFrom part (c :: s) = (if part = [] then [] else [part.reverse]) ++ wordsFrom [] s := by
  rw [wordsFrom, cutAt, if_pos h, cutAt_done, List.filter_append]
  cases part with
  | nil => rfl
  | cons b part => simp [wordsFrom]

theorem wordsFrom_visible {c : Char} (h : isBlank c = false) (part s : List Char) :
    wordsFrom part (c :: s) = wordsFrom (c :: part) s := by
  rw [wordsFrom, cutAt, if_neg (Bool.eq_false_iff.mp h)]
  rfl

/-- The words from a place on, written with spaces between them; behind a word `w`, in the middle of
one, or before any. -/
theorem intercalate_wordsFrom (s : List Char) :
    [' '].intercalate (wordsFrom [] s) = tidy .fresh s ∧
      (∀ part, part ≠ [] → [' '].intercalate (wordsFrom part s) = part.reverse ++ tidy .tight s) ∧
      ∀ w, [' '].intercalate (w :: wordsFrom [] s) = w ++ tidy .loose s := by
  induction s with
  | nil =>
      refine ⟨rfl, fun part hpart => ?_, fun w => ?_⟩
      · cases part with
        | nil => exact absurd rfl hpart
        | cons b part => simp [wordsFrom, cutAt, tidy]
      · simp [wordsFrom, cutAt, tidy]
  | cons c s ih =>
      obtain ⟨hfresh, htight, hloose⟩ := ih
      cases hc : isBlank c with
      | true =>
          simp only [wordsFrom_blank hc, tidy_blank hc]
          refine ⟨hfresh, fun part hpart => ?_, hloose⟩
          rw [if_neg hpart]
          exact hloose part.reverse
      | false =>
          simp only [wordsFrom_visible hc, tidy_visible hc]
          have hword := htight [c] (List.cons_ne_nil _ _)
          refine ⟨hword, fun part _ => ?_, fun w => ?_⟩
          · rw [htight (c :: part) (List.cons_ne_nil _ _), List.reverse_cons, List.append_assoc]
            rfl
          · have hne : wordsFrom [c] s ≠ [] := by
              intro hnil
              rw [hnil] at hword
              cases hword
            rw [List.intercalate_cons_of_ne_nil hne, hword, List.append_assoc]
            rfl

theorem collapse_eq_tidy (s : List Char) : collapse s = tidy .fresh s := (intercalate_wordsFrom s).1

end ExtensionLint.Text
