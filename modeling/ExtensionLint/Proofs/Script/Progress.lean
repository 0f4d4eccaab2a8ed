import Mathlib.Algebra.GroupWithZero.Nat
import Mathlib.Data.List.Chain
import ExtensionLint.Proofs.Script.Lexing

/-!
# The scanner comes to an end

No two steps in a row take nothing, so the scanner ends after a bounded number of steps
(`Run.length_le`); and no step takes more than there is (`Run.sum_taken`). It ends behind the last byte
unless it meets an opener that the script leaves open (`clean_ends`).
-/

namespace ExtensionLint.Script

open Text Utf8

variable {o : Blanking} {state next : State} {last : Option UInt8} {b : UInt8} {tail : List UInt8}
  {n : Nat}

/-! ## Openers that are left open -/

/-- `<<<`, a quote and a label, with which the text ends. -/
def UnclosedOpener (text : List UInt8) : Prop :=
  ∃ indent quote label, text = mark "<<<" ++ (indent ++ (quote ++ label)) ∧
    (∀ b ∈ indent, isIndent b = true) ∧ (quote = mark "'" ∨ quote = mark "\"") ∧ IsLabel label

theorem unclosedOpener_iff {text : List UInt8} :
    UnclosedOpener text ↔ ∃ opener, opener? text = some opener ∧ text.length < opener.size := by
  constructor
  · rintro ⟨indent, quote, label, htext, hindent, hquote, hlabel⟩
    let opener : Opener := ⟨label, 3 + indent.length + quote.length + label.length + quote.length⟩
    refine ⟨opener, opener?_eq_some_iff.mpr ⟨indent, quote, [], ?_, hindent, .inr hquote, hlabel, rfl,
      rfl⟩, ?_⟩
    · rw [htext, List.append_nil]
    · have hmark : (mark "<<<").length = 3 := rfl
      have hone : quote.length = 1 := by
        rcases hquote with rfl | rfl <;> rfl
      simp only [htext, List.length_append, hmark, opener]
      omega
  · rintro ⟨opener, hopener, hsize⟩
    obtain ⟨indent, quote, behind, rfl, hindent, hquote, hlabel, _, hopenerSize⟩ :=
      opener?_eq_some_iff.mp hopener
    have hmark : (mark "<<<").length = 3 := rfl
    simp only [List.length_append, hmark, hopenerSize] at hsize
    rcases hquote with rfl | hquote
    · simp only [List.length_nil] at hsize
      omega
    · have hone : quote.length = 1 := by
        rcases hquote with rfl | rfl <;> rfl
      obtain rfl : behind = [] := List.eq_nil_of_length_eq_zero (by omega)
      exact ⟨indent, quote, opener.label, by rw [List.append_nil], hindent, hquote, hlabel⟩

theorem UnclosedOpener.exists_cons {text : List UInt8} (h : UnclosedOpener text) :
    ∃ tail, text = byte '<' :: tail := by
  obtain ⟨indent, quote, label, rfl, _⟩ := h
  exact ⟨_, rfl⟩

/-- The one way to fail. -/
theorem State.step_eq_error_iff {fault : ScriptFault} :
    state.step o last b tail = .error fault ↔ state = .code ∧ UnclosedOpener (b :: tail) := by
  constructor
  · intro h
    cases state with
    | code =>
        refine ⟨rfl, unclosedOpener_iff.mpr ?_⟩
        simp only [step] at h
        split at h
        · cases h
        split at h
        · cases h
        split at h
        · cases h
        split at h
        · rename_i opener hopener
          split at h <;> rename_i hsize <;> cases h
          exact ⟨opener, hopener, Nat.lt_of_not_le hsize⟩
        · cases h
    | markup => simp only [step] at h; split at h <;> cases h
    | lineComment =>
        simp only [step] at h
        split at h
        · cases h
        · split at h <;> cases h
    | blockComment => simp only [step] at h; split at h <;> cases h
    | literal quote => simp only [step] at h; split at h <;> cases h
    | heredoc label => simp only [step] at h; split at h <;> cases h
  · rintro ⟨rfl, hopen⟩
    obtain ⟨opener, hopener, hsize⟩ := unclosedOpener_iff.mp hopen
    obtain ⟨rest, hcons⟩ := hopen.exists_cons
    obtain ⟨rfl, rfl⟩ := List.cons.inj hcons
    have hmark : NoMark (byte '<') tail := noMark_of_not_mem (by decide)
    simp only [step, hmark.closeTag, hmark.lineComment, hmark.blockComment, Bool.false_eq_true,
      ↓reduceIte, hopener, Nat.not_le_of_lt hsize]

/-! ## One step -/

/-- The only steps that take nothing lead into a comment and, before a close tag, out of it. -/
theorem Moves.still_cases (hs : state.Proper) (h : Moves last b tail state n next) (hn : n = 0) :
    state = .code ∧ next = .lineComment ∧ (mark "?>").isPrefixOf (b :: tail) = false ∨
      state = .lineComment ∧ next = .code ∧ (mark "?>").isPrefixOf (b :: tail) = true := by
  cases h with
  | openTag => exact absurd hn (Nat.ne_of_gt (openTagSize_pos _))
  | openLineComment hclose => exact .inl ⟨rfl, rfl, hclose⟩
  | openHeredoc _ hopener => exact absurd hn (Nat.ne_of_gt (opener?_size_pos hopener))
  | leaveLine _ hclose => exact .inr ⟨rfl, rfl, hclose⟩
  | closeHeredoc _ hcloser =>
      obtain ⟨_, _, _, _, _, hsize⟩ := (closer?_eq_some_iff hs).mp hcloser
      have hlabel := List.length_pos_of_ne_nil hs.1
      omega
  | _ => cases hn

/-- A step that takes nothing is followed by one that does. -/
theorem Moves.advance_behind_still {m : Nat} {last' : Option UInt8} {further : State}
    (hs : state.Proper) (h : Moves last b tail state 0 next)
    (h' : Moves last' b tail next m further) : 0 < m := by
  refine Nat.pos_of_ne_zero fun hm => ?_
  have hfirst := h.still_cases hs rfl
  have hsecond := h'.still_cases (hs.of_moves h) hm
  rcases hfirst with ⟨rfl, rfl, hopen⟩ | ⟨rfl, rfl, hclose⟩
  · rcases hsecond with ⟨hstate, _⟩ | ⟨_, _, hclose⟩
    · cases hstate
    · rw [hopen] at hclose
      cases hclose
  · rcases hsecond with ⟨_, _, hopen⟩ | ⟨hstate, _⟩
    · rw [hclose] at hopen
      cases hopen
    · cases hstate

theorem openTagSize_le {text : List UInt8} (h : (mark "<?").isPrefixOf text = true) :
    openTagSize text ≤ text.length := by
  unfold openTagSize
  split
  · rename_i hphp
    have hlength := congrArg List.length hphp
    rw [List.length_map, List.length_take] at hlength
    have hmark : (mark "<?php").length = 5 := rfl
    omega
  split
  · rename_i hecho
    exact (List.isPrefixOf_iff_prefix.mp hecho).length_le
  · exact (List.isPrefixOf_iff_prefix.mp h).length_le

theorem Moves.taken_le (hs : state.Proper) (h : Moves last b tail state n next) :
    n ≤ (b :: tail).length := by
  have hpair {pair : List UInt8} (hstart : pair.isPrefixOf (b :: tail) = true) :
      pair.length ≤ (b :: tail).length := (List.isPrefixOf_iff_prefix.mp hstart).length_le
  cases h with
  | openTag h => exact openTagSize_le h
  | closeTag h => exact hpair h
  | openBlockComment _ _ h => exact hpair h
  | openHeredoc _ _ hsize => exact hsize
  | closeBlock h => exact hpair h
  | escape h =>
      cases tail with
      | nil => simp at h
      | cons x tail => exact Nat.le_add_left 2 tail.length
  | closeHeredoc _ h =>
      obtain ⟨indent, behind, htext, _, _, rfl⟩ := (closer?_eq_some_iff hs).mp h
      rw [htext, List.length_append, List.length_append]
      omega
  | _ => exact Nat.le_add_left _ _

/-! ## Runs of steps -/

/-- Where of two steps in a row one takes something, there are at most twice as many as they take bytes,
and one more. -/
theorem length_le_of_isChain {steps : List Step}
    (h : steps.IsChain fun r r' => 0 < r.taken ∨ 0 < r'.taken) :
    steps.length ≤ 2 * (steps.map Step.taken).sum + 1 := by
  match steps, h with
  | [], _ => exact Nat.zero_le _
  | [r], _ => exact Nat.le_add_left 1 _
  | r :: r' :: steps, h =>
      obtain ⟨hpair, hrest⟩ := List.isChain_cons_cons.mp h
      have hbound := length_le_of_isChain hrest.tail
      simp only [List.tail_cons, List.length_cons, List.map_cons, List.sum_cons] at hbound ⊢
      omega

/-- The scanner gets from one place to another by these steps. -/
inductive Run (o : Blanking) : Place → List Step → Place → Prop
  | refl (p : Place) : Run o p [] p
  | step {state : State} {last : Option UInt8} {b : UInt8} {tail : List UInt8} {r : Step}
      {steps : List Step} {q : Place} (h : state.step o last b tail = .ok r)
      (further : Run o (Place.after ⟨state, last, b :: tail⟩ r.taken r.next) steps q) :
      Run o ⟨state, last, b :: tail⟩ (r :: steps) q

namespace Run

variable {p q : Place} {steps : List Step}

theorem trans {s : Place} {steps' : List Step} (h : Run o p steps q) (h' : Run o q steps' s) :
    Run o p (steps ++ steps') s := by
  induction h with
  | refl => exact h'
  | step hstep _ ih => exact step hstep (ih h')

theorem exists_step {r : Step} (h : Run o p (r :: steps) q) :
    ∃ b tail, p.ahead = b :: tail ∧ p.state.step o p.last b tail = .ok r := by
  cases h with
  | step hstep _ => exact ⟨_, _, rfl, hstep⟩

theorem isChain (h : Run o p steps q) (hp : p.state.Proper) :
    steps.IsChain fun r r' => 0 < r.taken ∨ 0 < r'.taken := by
  induction h with
  | refl => exact .nil
  | @step state last b tail r steps q hstep further ih =>
      have hmoves := State.step_sound hstep
      have hchain := ih (hp.of_moves hmoves)
      cases steps with
      | nil => exact .singleton r
      | cons r' steps =>
          obtain ⟨b', tail', hahead, hstep'⟩ := further.exists_step
          refine List.isChain_cons_cons.mpr ⟨?_, hchain⟩
          rcases Nat.eq_zero_or_pos r.taken with hzero | hpos
          · -- the second step is at the same byte
            rw [hzero] at hmoves
            have hsame : (b :: tail).drop r.taken = b' :: tail' := hahead
            rw [hzero, List.drop_zero] at hsame
            obtain ⟨rfl, rfl⟩ := List.cons.inj hsame
            exact .inr (hmoves.advance_behind_still hp (State.step_sound hstep'))
          · exact .inl hpos

/-- No step reaches beyond the end. -/
theorem sum_taken (h : Run o p steps q) (hp : p.state.Proper) :
    (steps.map Step.taken).sum + q.ahead.length = p.ahead.length := by
  induction h with
  | refl => exact Nat.zero_add _
  | @step state last b tail r steps q hstep further ih =>
      have hmoves := State.step_sound hstep
      have hrest : (steps.map Step.taken).sum + q.ahead.length = ((b :: tail).drop r.taken).length :=
        ih (hp.of_moves hmoves)
      rw [List.length_drop] at hrest
      have hle := hmoves.taken_le hp
      rw [List.map_cons, List.sum_cons, Nat.add_assoc, hrest]
      exact Nat.add_sub_cancel' hle

theorem ahead_suffix (h : Run o p steps q) : q.ahead <:+ p.ahead := by
  induction h with
  | refl => exact List.suffix_refl _
  | step _ _ ih => exact ih.trans (List.drop_suffix _ _)

theorem length_le (h : Run o p steps q) (hp : p.state.Proper) :
    steps.length ≤ 2 * p.ahead.length + 1 := by
  have hbound := length_le_of_isChain (h.isChain hp)
  have hsum := h.sum_taken hp
  omega

/-- Behind a run the scanner goes on where it leads. -/
theorem scanFrom_eq (h : Run o p steps q) (out : List UInt8) :
    scanFrom o p.state p.last p.ahead out =
      scanFrom o q.state q.last q.ahead ((steps.flatMap Step.written).reverse ++ out) := by
  induction h generalizing out with
  | refl => rfl
  | step hstep _ ih =>
      rw [scanFrom]
      split
      · rename_i herror
        cases hstep.symm.trans herror
      · rename_i hok
        cases hstep.symm.trans hok
        rw [List.flatMap_cons, List.reverse_append, List.append_assoc]
        exact ih _

/-- What is hidden does not change where the scanner gets. -/
theorem exists_other (h : Run o p steps q) (o' : Blanking) : ∃ steps', Run o' p steps' q := by
  induction h with
  | refl => exact ⟨[], .refl _⟩
  | step hstep _ ih =>
      obtain ⟨steps', hrun⟩ := ih
      exact ⟨_, .step (State.step_complete (State.step_sound hstep) o') hrun⟩

end Run

/-- The scanner is at an opener that is left open. -/
structure Place.Stuck (p : Place) : Prop where
  state : p.state = .code
  ahead : UnclosedOpener p.ahead

theorem Place.Stuck.scanFrom_eq {p : Place} (h : p.Stuck) (out : List UInt8) :
    scanFrom o p.state p.last p.ahead out = .error .unclosedOpener := by
  obtain ⟨state, last, text⟩ := p
  obtain ⟨tail, rfl⟩ := h.ahead.exists_cons
  have hstep : state.step o last (byte '<') tail = .error .unclosedOpener :=
    State.step_eq_error_iff.mpr ⟨h.state, h.ahead⟩
  rw [scanFrom]
  split
  · rename_i fault herror
    cases fault
    rfl
  · rename_i hok
    cases hstep.symm.trans hok

/-- From every place the scanner gets to the end or to where it is stuck. -/
theorem exists_run_to_end (o : Blanking) (state : State) (last : Option UInt8) (text out : List UInt8) :
    ∃ steps q, Run o ⟨state, last, text⟩ steps q ∧ (q.ahead = [] ∨ q.Stuck) := by
  induction state, last, text, out using scanFrom.induct (o := o) with
  | case1 state last out => exact ⟨[], _, .refl _, .inl rfl⟩
  | case2 state last out b tail fault herror =>
      obtain ⟨hstate, hahead⟩ := State.step_eq_error_iff.mp herror
      exact ⟨[], _, .refl _, .inr ⟨hstate, hahead⟩⟩
  | case3 state last out b tail r hstep ih =>
      obtain ⟨steps, q, hrun, hend⟩ := ih
      exact ⟨r :: steps, q, .step hstep hrun, hend⟩

namespace Run

variable {source : List Char} {steps : List Step} {q : Place}

theorem scan_eq_ok (h : Run o ⟨.markup, none, encode source⟩ steps q) (hend : q.ahead = []) :
    scan o (encode source) = .ok (steps.flatMap Step.written) := by
  rw [scan, h.scanFrom_eq [], hend, scanFrom, List.append_nil, List.reverse_reverse]

theorem clean_eq_ok (h : Run o ⟨.markup, none, encode source⟩ steps q) (hend : q.ahead = []) :
    clean o source = .ok (decodeLossy (steps.flatMap Step.written)) := by
  rw [clean, h.scan_eq_ok hend]
  rfl

theorem clean_eq_error (h : Run o ⟨.markup, none, encode source⟩ steps q) (hstuck : q.Stuck) :
    clean o source = .error .unclosedOpener := by
  have hscan : scan o (encode source) = .error .unclosedOpener := by
    rw [scan, h.scanFrom_eq [], hstuck.scanFrom_eq]
  rw [clean, hscan]
  rfl

end Run

theorem clean_eq_error_iff {source : List Char} :
    clean o source = .error .unclosedOpener ↔
      ∃ steps q, Run o ⟨.markup, none, encode source⟩ steps q ∧ q.Stuck := by
  constructor
  · intro h
    obtain ⟨steps, q, hrun, hend | hstuck⟩ := exists_run_to_end o .markup none (encode source) []
    · cases (hrun.clean_eq_ok hend).symm.trans h
    · exact ⟨steps, q, hrun, hstuck⟩
  · rintro ⟨steps, q, hrun, hstuck⟩
    exact hrun.clean_eq_error hstuck

theorem clean_eq_error_of_other {o' : Blanking} {source : List Char}
    (h : clean o source = .error .unclosedOpener) : clean o' source = .error .unclosedOpener := by
  obtain ⟨steps, q, hrun, hstuck⟩ := clean_eq_error_iff.mp h
  obtain ⟨steps', hrun'⟩ := hrun.exists_other o'
  exact hrun'.clean_eq_error hstuck

/-- The scanner comes to an end. Of two steps in a row one takes something, all of them together take no
more than there is, and their number is bounded. They lead to the end of the script, or in code to an
opener that is left open, and the scanner fails exactly if they lead there, whatever is hidden. So a
script that does not end in such an opener can be cleaned. -/
theorem clean_ends (o : Blanking) (source : List Char) :
    (∀ steps q, Run o ⟨.markup, none, encode source⟩ steps q →
      (steps.IsChain fun r r' => 0 < r.taken ∨ 0 < r'.taken) ∧
      (steps.map Step.taken).sum + q.ahead.length = (encode source).length ∧
      steps.length ≤ 2 * (encode source).length + 1) ∧
    (∃ steps q, Run o ⟨.markup, none, encode source⟩ steps q ∧
      (q.ahead = [] ∧ clean o source = .ok (decodeLossy (steps.flatMap Step.written)) ∨
        q.Stuck ∧ clean o source = .error .unclosedOpener)) ∧
    (clean o source = .error .unclosedOpener ↔
      ∃ steps q, Run o ⟨.markup, none, encode source⟩ steps q ∧ q.Stuck) ∧
    (∀ o' : Blanking, clean o source = .error .unclosedOpener ↔
      clean o' source = .error .unclosedOpener) ∧
    ((∀ text, UnclosedOpener text → ¬ text <:+ encode source) →
      ∃ cleaned, clean o source = .ok cleaned) := by
  obtain ⟨steps, q, hrun, hend⟩ := exists_run_to_end o .markup none (encode source) []
  refine ⟨fun steps q hrun => ⟨hrun.isChain trivial, hrun.sum_taken trivial, hrun.length_le trivial⟩,
    ⟨steps, q, hrun, ?_⟩, clean_eq_error_iff, fun o' => ⟨clean_eq_error_of_other,
    clean_eq_error_of_other⟩, fun hnone => ?_⟩
  · exact hend.imp (fun hend => ⟨hend, hrun.clean_eq_ok hend⟩) fun hstuck =>
      ⟨hstuck, hrun.clean_eq_error hstuck⟩
  · rcases hend with hend | hstuck
    · exact ⟨_, hrun.clean_eq_ok hend⟩
    · exact absurd hrun.ahead_suffix (hnone q.ahead hstuck.ahead)

/-- The quote behind the label is there, and it is the end of the script. -/
theorem clean_ends_closed_opener :
    (∀ text, UnclosedOpener text → ¬ text <:+ encode "<?php $s = <<<'EOT'".toList) ∧
      ∃ cleaned, clean .all "<?php $s = <<<'EOT'".toList = .ok cleaned := by
  have hnone : ∀ text, UnclosedOpener text → ¬ text <:+ encode "<?php $s = <<<'EOT'".toList := by
    rintro _ ⟨indent, quote, label, rfl, _, _, hlabel⟩ hsuffix
    simp only [← List.append_assoc] at hsuffix
    have hend : label <:+ encode "<?php $s = <<<'EOT'".toList := (List.suffix_append _ _).trans hsuffix
    have hquote : label.getLast hlabel.1 = byte '\'' := hend.getLast hlabel.1
    have hword := hlabel.2 _ (List.getLast_mem hlabel.1)
    rw [hquote] at hword
    cases hword
  exact ⟨hnone, (clean_ends .all _).2.2.2.2 hnone⟩

end ExtensionLint.Script
