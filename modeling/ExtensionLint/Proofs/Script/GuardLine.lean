import ExtensionLint.Proofs.Text.Search
import ExtensionLint.Script.Guard

/-!
# Guard lines

In a guard line `defined`, a constant and `die` stand in this order. The check goes by the first place
of each, so it also wants that no earlier mention of the constant and no earlier `die` misleads it;
these lines are exactly the ones that it accepts (`isGuardLine_iff_inOrder`).
-/

namespace ExtensionLint.Script.Guard

open Text

variable {constant : String} {constants : List String} {line : List Char}

def DefinedAt (line : List Char) (place : Nat) : Prop :=
  OccursAt "defined".toList (lowerAscii line) place

def DieAt (line : List Char) (place : Nat) : Prop := OccursAt "die".toList (lowerAscii line) place

def ConstantAt (constant : String) (line : List Char) (place : Nat) : Prop :=
  OccursAt constant.toList line place

/-- The parts of a guard stand in the line, one behind the other. -/
def InOrder (constant : String) (line : List Char) : Prop :=
  ∃ i j k, i < j ∧ j < k ∧ DefinedAt line i ∧ ConstantAt constant line j ∧ DieAt line k

/-- No mention of the constant and no `die` stands too early. -/
structure Clear (constant : String) (line : List Char) : Prop where
  behind_defined : ∀ j, ConstantAt constant line j → ∃ i < j, DefinedAt line i
  behind_constant : ∀ k, DieAt line k → ∃ j < k, ConstantAt constant line j

/-- The first places of the parts of a guard come in the order of the parts. -/
def FirstsInOrder (constant : String) (line : List Char) : Prop :=
  ∃ i j k, i < j ∧ j < k ∧ FirstAt "defined".toList (lowerAscii line) i ∧
    FirstAt constant.toList line j ∧ FirstAt "die".toList (lowerAscii line) k

theorem isGuardLine_eq_true_iff :
    isGuardLine constants line = true ↔ ∃ c ∈ constants, FirstsInOrder c line := by
  unfold FirstsInOrder
  simp only [isGuardLine, ← index?_eq_some_iff]
  cases index? "defined".toList (lowerAscii line) with
  | none => simp
  | some i =>
      cases index? "die".toList (lowerAscii line) with
      | none => simp
      | some k =>
          simp only [List.any_eq_true]
          refine exists_congr fun c => and_congr_right fun _ => ?_
          cases index? c.toList line with
          | none => simp
          | some j =>
              simp only [Option.some.injEq, Bool.and_eq_true, decide_eq_true_eq]
              constructor
              · rintro ⟨hij, hjk⟩
                exact ⟨i, j, k, hij, hjk, rfl, rfl, rfl⟩
              · rintro ⟨_, _, _, hij, hjk, rfl, rfl, rfl⟩
                exact ⟨hij, hjk⟩

theorem FirstsInOrder.inOrder (h : FirstsInOrder constant line) : InOrder constant line := by
  obtain ⟨i, j, k, hij, hjk, hi, hj, hk⟩ := h
  exact ⟨i, j, k, hij, hjk, hi.occurs, hj.occurs, hk.occurs⟩

theorem FirstsInOrder.clear (h : FirstsInOrder constant line) : Clear constant line := by
  obtain ⟨i, j, k, hij, hjk, hi, hj, hk⟩ := h
  exact ⟨fun j' hj' => ⟨i, Nat.lt_of_lt_of_le hij (hj.first j' hj'), hi.occurs⟩,
    fun k' hk' => ⟨j, Nat.lt_of_lt_of_le hjk (hk.first k' hk'), hj.occurs⟩⟩

theorem InOrder.firstsInOrder (h : InOrder constant line) (hclear : Clear constant line) :
    FirstsInOrder constant line := by
  obtain ⟨_, _, _, _, _, hi, hj, hk⟩ := h
  obtain ⟨i, _, hi⟩ := exists_firstAt hi
  obtain ⟨j, _, hj⟩ := exists_firstAt hj
  obtain ⟨k, _, hk⟩ := exists_firstAt hk
  obtain ⟨i', hij, hi'⟩ := hclear.behind_defined j hj.occurs
  obtain ⟨j', hjk, hj'⟩ := hclear.behind_constant k hk.occurs
  exact ⟨i, j, k, Nat.lt_of_le_of_lt (hi.first i' hi') hij, Nat.lt_of_le_of_lt (hj.first j' hj') hjk,
    hi, hj, hk⟩

/-- A line passes for a guard exactly if the parts of a guard stand in it in order, for one of the
constants, and neither an earlier mention of this constant nor an earlier `die` is in the way. So where
nothing is in the way of constants that stand in order, a line passes exactly if one does. -/
theorem isGuardLine_iff_inOrder (constants : List String) (line : List Char) :
    (isGuardLine constants line = true ↔ ∃ c ∈ constants, InOrder c line ∧ Clear c line) ∧
    ((∀ c ∈ constants, InOrder c line → Clear c line) →
      (isGuardLine constants line = true ↔ ∃ c ∈ constants, InOrder c line)) := by
  have hexact : isGuardLine constants line = true ↔
      ∃ c ∈ constants, InOrder c line ∧ Clear c line := by
    rw [isGuardLine_eq_true_iff]
    refine exists_congr fun c => and_congr_right fun _ => ?_
    exact ⟨fun h => ⟨h.inOrder, h.clear⟩, fun ⟨h, hclear⟩ => h.firstsInOrder hclear⟩
  refine ⟨hexact, fun hclear => ?_⟩
  rw [hexact]
  refine exists_congr fun c => and_congr_right fun hc => ?_
  exact and_iff_left_of_imp (hclear c hc)

/-- The constant may be mentioned again behind `die`, and `defined` more than once. -/
theorem isGuardLine_iff_inOrder_repeated :
    let line := "DEFINED('X') || \\defined('_JEXEC') or Die('_JEXEC');".toList
    (∀ c ∈ ["_JEXEC"], InOrder c line → Clear c line) ∧
      (isGuardLine ["_JEXEC"] line = true ↔ ∃ c ∈ ["_JEXEC"], InOrder c line) := by
  intro line
  have hfirsts : FirstsInOrder "_JEXEC" line :=
    ⟨0, 26, 38, by decide, by decide, index?_eq_some_iff.mp (by decide),
      index?_eq_some_iff.mp (by decide), index?_eq_some_iff.mp (by decide)⟩
  have hclear : ∀ c ∈ ["_JEXEC"], InOrder c line → Clear c line :=
    List.forall_mem_singleton.mpr fun _ => hfirsts.clear
  exact ⟨hclear, (isGuardLine_iff_inOrder _ line).2 hclear⟩

/-- An earlier word with `die` in it hides a guard. -/
theorem isGuardLine_misses_behind_die :
    let line := "$soldier = 1; defined('_JEXEC') or die;".toList
    isGuardLine ["_JEXEC"] line = false ∧ ∃ c ∈ ["_JEXEC"], InOrder c line := by
  intro line
  have hdefined : DefinedAt line 14 := List.isPrefixOf_iff_prefix.mp (by decide)
  have hconstant : ConstantAt "_JEXEC" line 23 := List.isPrefixOf_iff_prefix.mp (by decide)
  have hdie : DieAt line 35 := List.isPrefixOf_iff_prefix.mp (by decide)
  exact ⟨by decide, "_JEXEC", List.mem_singleton_self _, 14, 23, 35, by decide, by decide, hdefined,
    hconstant, hdie⟩

end ExtensionLint.Script.Guard
