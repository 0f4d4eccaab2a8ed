import Mathlib.Tactic.SplitIfs
import ExtensionLint.Discovery.Head

/-!
# Readings of a head

A head can be read in several ways: what begins like a comment may also be a declaration, and an
instruction or a comment may go on past its first end. `readings` follows all of them from character to
character, the preferred one first, so that it can stop at any place and go on from there
(`readings_append`). The name of the root is what the first reading finds that finds one
(`rootName?_eq_found?`).
-/

namespace ExtensionLint.Discovery

open Text

/-- How far a reading of a head has come. -/
inductive Stage
  /-- Before the root, outside of any item. -/
  | between
  /-- Behind the bracket of an item or of the root. -/
  | opened
  /-- Behind `<!`. -/
  | marked
  /-- Behind `<!-`. -/
  | dashed
  | instruction
  /-- In an instruction, behind a question mark. -/
  | instructionMark
  | comment
  | commentDash
  | commentDashes
  | declaration
  /-- In the name of the root. -/
  | naming (name : List Char)
  /-- Behind the name of the root. -/
  | named (name : List Char)
  deriving DecidableEq, Repr

namespace Stage

/-- The stages that one more character leads to, the preferred one first; none where the reading fails.
An item prefers to end where it can. -/
def step : Stage → Char → List Stage
  | between, c => if isBlank c then [between] else if c = '<' then [opened] else []
  | opened, c =>
    if c = '?' then [instruction] else if c = '!' then [marked]
    else if startsName c then [naming [c]] else []
  | marked, c => if c = '-' then [dashed] else if c = '>' then [between] else [declaration]
  | dashed, c =>
    if c = '-' then [comment, declaration] else if c = '>' then [between] else [declaration]
  | instruction, c => if c = '?' then [instructionMark] else [instruction]
  | instructionMark, c =>
    if c = '>' then [between, instruction] else if c = '?' then [instructionMark] else [instruction]
  | comment, c => if c = '-' then [commentDash] else [comment]
  | commentDash, c => if c = '-' then [commentDashes] else [comment]
  | commentDashes, c =>
    if c = '>' then [between, comment] else if c = '-' then [commentDashes] else [comment]
  | declaration, c => if c = '>' then [between] else [declaration]
  | naming name, c => if continuesName c then [naming (name ++ [c])] else [named name]
  | named name, _ => [named name]

def name? : Stage → Option (List Char)
  | naming name => some name
  | named name => some name
  | _ => none

end Stage

/-- The stages at which the readings of a text end, the preferred reading first. -/
def readings : List Char → Stage → List Stage
  | [], stage => [stage]
  | c :: s, stage => (stage.step c).flatMap (readings s)

theorem readings_append (s r : List Char) (stage : Stage) :
    readings (s ++ r) stage = (readings s stage).flatMap (readings r) := by
  induction s generalizing stage with
  | nil => simp [readings]
  | cons c s ih =>
      rw [List.cons_append, readings, readings, List.flatMap_assoc]
      exact congrArg (List.flatMap · (stage.step c)) (funext ih)

/-- The name that the first reading finds that finds one. -/
def found? (s : List Char) (stage : Stage) : Option (List Char) :=
  (readings s stage).findSome? Stage.name?

theorem findSome?_flatMap {α β γ : Type} (f : α → List β) (g : β → Option γ) (items : List α) :
    (items.flatMap f).findSome? g = items.findSome? fun a => (f a).findSome? g := by
  induction items with
  | nil => rfl
  | cons a items ih =>
      rw [List.flatMap_cons, List.findSome?_append, List.findSome?_cons, ih]
      cases (f a).findSome? g <;> rfl

theorem findSome?_pair {α β : Type} (f : α → Option β) (a b : α) :
    [a, b].findSome? f = (f a).or (f b) := by
  rw [List.findSome?_cons, List.findSome?_singleton]
  cases f a <;> rfl

theorem found?_cons (c : Char) (s : List Char) (stage : Stage) :
    found? (c :: s) stage = (stage.step c).findSome? (found? s) :=
  findSome?_flatMap _ _ _

theorem found?_append (s r : List Char) (stage : Stage) :
    found? (s ++ r) stage = (readings s stage).findSome? (found? r) := by
  rw [found?, readings_append]
  exact findSome?_flatMap _ _ _

/-! ## Marks -/

def first (s : List Char) : Marks := (marks s).head?.getD {}

theorem head_drop_marks (s : List Char) (n : Nat) :
    ((marks s).drop n).head?.getD {} = first (s.drop n) := by
  induction s generalizing n with
  | nil =>
      cases n with
      | zero => rfl
      | succ n => simp [marks, first]
  | cons c s ih =>
      cases n with
      | zero => rfl
      | succ n => exact ih n

theorem rootName?_eq_root (s : List Char) : rootName? s = (first s).root := by
  cases s <;> rfl

section Cons

variable (c : Char) (s : List Char)

theorem root_cons : (first (c :: s)).root =
    if isBlank c then (first s).root
    else if startsWith (c :: s) ['<', '?'] then (first (s.drop 1)).instruction
    else if startsWith (c :: s) ['<', '!', '-', '-'] then
      (first (s.drop 3)).comment.or (first (s.drop 1)).declaration
    else if startsWith (c :: s) ['<', '!'] then (first (s.drop 1)).declaration
    else if c = '<' then nameAt? s
    else none := by
  simp only [← head_drop_marks]
  rfl

theorem instruction_cons : (first (c :: s)).instruction =
    (if startsWith (c :: s) ['?', '>'] then (first (s.drop 1)).root else none).or
      (first s).instruction := by
  simp only [← head_drop_marks]
  rfl

theorem comment_cons : (first (c :: s)).comment =
    (if startsWith (c :: s) ['-', '-', '>'] then (first (s.drop 2)).root else none).or
      (first s).comment := by
  simp only [← head_drop_marks]
  rfl

theorem declaration_cons : (first (c :: s)).declaration =
    if c = '>' then (first s).root else (first s).declaration := rfl

end Cons

theorem startsWith_nil (s : List Char) : startsWith s [] = true := List.isPrefixOf_nil_left

theorem startsWith_cons (c d : Char) (s start : List Char) :
    startsWith (c :: s) (d :: start) = (decide (c = d) && startsWith s start) := by
  simp [startsWith, List.isPrefixOf, eq_comm, Bool.beq_eq_decide_eq]

theorem isBlank_bracket : isBlank '<' = false := by decide

/-- What the marks of a text tell of a reading that has come to a stage. -/
def Stage.mark? (s : List Char) : Stage → Option (List Char)
  | between => (first s).root
  | opened => (first ('<' :: s)).root
  | marked => (first ('<' :: '!' :: s)).root
  | dashed => (first ('<' :: '!' :: '-' :: s)).root
  | instruction => (first s).instruction
  | instructionMark => (first ('?' :: s)).instruction
  | comment => (first s).comment
  | commentDash => (first ('-' :: s)).comment
  | commentDashes => (first ('-' :: '-' :: s)).comment
  | declaration => (first s).declaration
  | naming name => some (name ++ s.takeWhile continuesName)
  | named name => some name

theorem Stage.mark?_nil (stage : Stage) : stage.mark? [] = stage.name? := by
  cases stage with
  | naming name => exact congrArg some (List.append_nil name)
  | _ => rfl

/-- Marks follow the stages from character to character. -/
theorem Stage.mark?_cons (c : Char) (s : List Char) (stage : Stage) :
    stage.mark? (c :: s) = (stage.step c).findSome? (Stage.mark? s) := by
  cases stage with
  | named name => rfl
  | between =>
      -- the text may go on with any character here; behind a bracket it cannot begin with a blank
      simp only [mark?, step]
      split_ifs with hblank hbracket
      · simp [mark?, root_cons, hblank]
      · subst hbracket
        simp [mark?]
      · simp [root_cons, startsWith_cons, hblank, hbracket]
  | _ =>
      simp only [mark?, step]
      split_ifs <;> subst_vars
      all_goals
        simp [mark?, root_cons, instruction_cons, comment_cons, declaration_cons, startsWith_cons,
          startsWith_nil, isBlank_bracket, nameAt?, findSome?_pair, *]

theorem found?_eq_mark? (s : List Char) (stage : Stage) : found? s stage = stage.mark? s := by
  induction s generalizing stage with
  | nil =>
      rw [Stage.mark?_nil, found?, readings, List.findSome?_singleton]
  | cons c s ih =>
      rw [found?_cons, Stage.mark?_cons]
      exact congrArg (List.findSome? · (stage.step c)) (funext ih)

theorem rootName?_eq_found? (s : List Char) : rootName? s = found? s .between := by
  rw [rootName?_eq_root, found?_eq_mark?, Stage.mark?]

theorem found?_naming (s name : List Char) :
    found? s (.naming name) = some (name ++ s.takeWhile continuesName) := found?_eq_mark? s _

theorem found?_named (s name : List Char) : found? s (.named name) = some name :=
  found?_eq_mark? s _

end ExtensionLint.Discovery
