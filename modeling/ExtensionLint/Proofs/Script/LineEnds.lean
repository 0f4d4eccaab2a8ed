import ExtensionLint.Proofs.Script.LineByLine
import ExtensionLint.Proofs.Script.Progress
import ExtensionLint.Proofs.Text.LineEnds
import ExtensionLint.Script.Encoding

/-!
# Scripts with other line ends

The scanner takes the same steps whatever line ends a script has, but for the further bytes of a line
end, which it takes one by one (`Run.exists_respelled`). So a script is cleaned alike with all of them
(`clean_withLineEnds`), and the same calls are reported (`check_withLineEnds`).
-/

namespace ExtensionLint.Script

open Text Utf8

variable {o : Blanking} {state next : State} {last last' : Option UInt8} {b : UInt8}
  {tail ends text : List UInt8} {n : Nat}

/-! ## What the scanner looks for -/

/-- Bytes that end lines, one or more. -/
structure IsLineEnding (ends : List UInt8) : Prop where
  ne_nil : ends ≠ []
  bytes : ∀ b ∈ ends, isLineEnd b = true

/-- Text within a line. -/
def Inline (text : List UInt8) : Prop := ∀ b ∈ text, isLineEnd b = false

instance (text : List UInt8) : Decidable (Inline text) := List.decidableBAll _ text

/-- The bytes with another line end in place of each LF. -/
abbrev respelled (ends text : List UInt8) : List UInt8 := respell (byte '\n') ends text

theorem ne_of_isLineEnd {b c : UInt8} (hb : isLineEnd b = true) (hc : isLineEnd c = false) :
    (b == c) = false := by
  rw [beq_eq_false_iff_ne]
  rintro rfl
  rw [hc] at hb
  cases hb

theorem isLabelByte_of_isLineEnd {b : UInt8} (h : isLineEnd b = true) : isLabelByte b = false := by
  rw [Bool.eq_false_iff]
  intro hlabel
  cases h.symm.trans (isLineEnd_eq_false (.inr hlabel))

theorem isIndent_of_isLineEnd {b : UInt8} (h : isLineEnd b = true) : isIndent b = false := by
  rw [Bool.eq_false_iff]
  intro hindent
  cases h.symm.trans (isLineEnd_eq_false (.inl hindent))

theorem head?_bne (c : UInt8) (text : List UInt8) :
    (text.head? != some c) = !text.head?.any (· == c) := by
  cases text with
  | nil => rfl
  | cons b text => rfl

namespace IsLineEnding

section

variable (hends : IsLineEnding ends)
include hends

theorem blind {p : UInt8 → Bool} (h : ∀ b, isLineEnd b = true → p b = false) :
    Blind (byte '\n') ends p :=
  ⟨h _ rfl, fun b hb => h b (hends.bytes b hb)⟩

theorem isPrefixOf_eq {pattern : List UInt8} (h : Inline pattern) (text : List UInt8) :
    pattern.isPrefixOf (respelled ends text) = pattern.isPrefixOf text := by
  have hnot {b : UInt8} (hb : isLineEnd b = true) : b ∉ pattern := by
    intro hmem
    rw [h b hmem] at hb
    cases hb
  exact isPrefixOf_respell hends.ne_nil (hnot rfl) (fun b hb => hnot (hends.bytes b hb)) text

theorem isPrefixOf?_eq {pattern : List UInt8} (h : Inline pattern) (text : List UInt8) :
    pattern.isPrefixOf? (respelled ends text) = (pattern.isPrefixOf? text).map (respelled ends) := by
  have hpattern : respelled ends pattern = pattern := by
    refine respell_of_not_mem (fun hlf => ?_) ends
    cases h _ hlf
  cases hfound : pattern.isPrefixOf? text with
  | none =>
      have hsame := hends.isPrefixOf_eq h text
      rw [← List.isSome_isPrefixOf?_eq_isPrefixOf, ← List.isSome_isPrefixOf?_eq_isPrefixOf, hfound] at hsame
      exact Option.isNone_iff_eq_none.mp (Option.isSome_eq_false_iff.mp hsame)
  | some behind =>
      rw [List.isPrefixOf?_eq_some_iff_append_eq] at hfound
      have happend : respelled ends (pattern ++ behind) = pattern ++ respelled ends behind := by
        rw [respelled, respell_append, ← respelled, hpattern]
      rw [Option.map_some, List.isPrefixOf?_eq_some_iff_append_eq, ← hfound, happend]

theorem head?_any_eq {c : UInt8} (hc : isLineEnd c = false) (text : List UInt8) :
    (respelled ends text).head?.any (· == c) = text.head?.any (· == c) :=
  head?_any_respell hends.ne_nil (hends.blind fun _ hb => ne_of_isLineEnd hb hc) text

theorem openTagSize_eq (text : List UInt8) : openTagSize (respelled ends text) = openTagSize text := by
  have hphp (text : List UInt8) : (text.take 5).map lowerByte = mark "<?php" ↔
      (mark "<?php").isPrefixOf (text.map lowerByte) = true := by
    rw [List.isPrefixOf_iff_prefix, List.prefix_iff_eq_take, List.map_take]
    exact eq_comm
  have hlower (b : UInt8) : lowerByte b = byte '\n' ↔ b = byte '\n' := by
    refine ⟨eq_of_lowerByte (by decide), ?_⟩
    rintro rfl
    rfl
  have hkept : ends.map lowerByte = ends := by
    refine (List.map_congr_left fun b hb => ?_).trans (List.map_id ends)
    have hend := hends.bytes b hb
    simp only [isLineEnd, Bool.or_eq_true, beq_iff_eq] at hend
    rcases hend with rfl | rfl <;> rfl
  simp only [openTagSize, hphp, respell_map hlower hkept,
    hends.isPrefixOf_eq (show Inline (mark "<?php") by decide),
    hends.isPrefixOf_eq (show Inline (mark "<?=") by decide)]

theorem drop_quotingSize (text : List UInt8) :
    quotingSize (respelled ends text) = quotingSize text ∧
      (respelled ends text).drop (quotingSize text) = respelled ends (text.drop (quotingSize text)) := by
  have hquote : ∀ b, isLineEnd b = true → (b == byte '\'' || b == byte '"') = false := by
    intro b hb
    rw [ne_of_isLineEnd hb (c := byte '\'') rfl, ne_of_isLineEnd hb (c := byte '"') rfl, Bool.or_self]
  have hhead := head?_any_respell hends.ne_nil (hends.blind hquote) text
  refine ⟨by rw [quotingSize, quotingSize, hhead], ?_⟩
  unfold quotingSize
  split
  · rename_i hany
    cases text with
    | nil => rfl
    | cons b text =>
        have hb : b ≠ byte '\n' := by
          rintro rfl
          cases hany
        rw [respelled, respell_cons_of_ne hb]
        rfl
  · rfl

theorem opener?_eq (text : List UInt8) : opener? (respelled ends text) = opener? text := by
  have hindent (text : List UInt8) :=
    span_respell hends.ne_nil (hends.blind fun _ => isIndent_of_isLineEnd) text
  have hlabel (text : List UInt8) :=
    (span_respell hends.ne_nil (hends.blind fun _ => isLabelByte_of_isLineEnd) text).1
  rw [opener?_eq_bind, opener?_eq_bind, hends.isPrefixOf?_eq (show Inline (mark "<<<") by decide)]
  cases (mark "<<<").isPrefixOf? text with
  | none => rfl
  | some inner =>
      simp only [Option.map_some, Option.bind_some, (hindent inner).1, (hindent inner).2,
        (hends.drop_quotingSize _).1, (hends.drop_quotingSize _).2, hlabel]

theorem closer?_eq {label : List UInt8} (hword : IsLabel label) (text : List UInt8) :
    closer? label (respelled ends text) = closer? label text := by
  have hindent :=
    span_respell hends.ne_nil (hends.blind fun _ => isIndent_of_isLineEnd) text
  have hplain : Inline label := fun b hb => isLineEnd_eq_false (.inr (hword.2 b hb))
  rw [closer?, closer?, hindent.1, hindent.2, hends.isPrefixOf?_eq hplain]
  cases label.isPrefixOf? (text.dropWhile isIndent) with
  | none => rfl
  | some behind =>
      simp only [Option.map_some, Option.bind_some,
        head?_any_respell hends.ne_nil (hends.blind fun _ => isLabelByte_of_isLineEnd) behind]

end

end IsLineEnding

/-! ## One step -/

/-- Labels are words, and literals stand in quotes. -/
def State.Regular : State → Prop
  | .heredoc label => IsLabel label
  | .literal quote => isQuote quote = true
  | _ => True

theorem State.Regular.proper (hs : state.Regular) : state.Proper := by
  cases state with
  | heredoc label => exact hs
  | _ => trivial

theorem State.Regular.of_moves (hs : state.Regular) (h : Moves last b tail state n next) :
    next.Regular := by
  cases h with
  | openHeredoc _ hopener _ =>
      obtain ⟨_, _, _, _, _, _, hlabel, _⟩ := opener?_eq_some_iff.mp hopener
      exact hlabel
  | openLiteral _ _ hquote => exact hquote
  | escape _ => exact hs
  | inLiteral _ _ => exact hs
  | inHeredoc _ => exact hs
  | _ => trivial

/-- The state behind a line end. -/
def State.behindLineEnd : State → State
  | .lineComment => .code
  | state => state

/-- Each byte of a line end is taken by itself. -/
theorem Moves.lineEnd (hs : state.Regular) (hb : isLineEnd b = true) (last : Option UInt8)
    (tail : List UInt8) : Moves last b tail state 1 state.behindLineEnd := by
  have hne (c : Char) (hc : isLineEnd (byte c) = false) : b ≠ byte c :=
    beq_eq_false_iff_ne.mp (ne_of_isLineEnd hb hc)
  cases state with
  | markup => exact .text (isPrefixOf_cons_of_ne (hne '<' rfl))
  | code =>
      have hquote : isQuote b = false := by
        rw [isQuote, ne_of_isLineEnd hb (c := byte '\'') rfl, ne_of_isLineEnd hb (c := byte '"') rfl,
          ne_of_isLineEnd hb (c := byte '`') rfl]
        rfl
      have hmark : b ∉ mark "#/?" := by
        simp only [isLineEnd, Bool.or_eq_true, beq_iff_eq] at hb
        rcases hb with rfl | rfl <;> decide
      exact .plain (noMark_of_not_mem hmark) (opener?_cons_of_ne (hne '<' rfl)) hquote
  | lineComment => exact .endLine hb
  | blockComment => exact .inBlock (isPrefixOf_cons_of_ne (hne '*' rfl))
  | literal quote =>
      have hescape : (b == byte '\\' && !tail.isEmpty) = false := by
        rw [ne_of_isLineEnd hb (c := byte '\\') rfl, Bool.false_and]
      have hquote : isLineEnd quote = false := by
        rcases isQuote_eq hs with rfl | rfl | rfl <;> rfl
      exact .inLiteral hescape (ne_of_isLineEnd hb hquote)
  | heredoc label =>
      have hcloser : closer? label ([] ++ b :: tail) = none :=
        closer?_line hs (not_closes_nil hs) (by simpa using hb)
      exact .inHeredoc fun _ => hcloser

/-- The scanner takes the same step with another line end, the first byte of it for an LF. -/
theorem Moves.exists_respelled (hends : IsLineEnding ends) (hs : state.Regular)
    (h : Moves last b tail state n next) (hlast : last'.all isLineEnd = last.all isLineEnd) :
    ∃ b' tail', respelled ends (b :: tail) = b' :: tail' ∧ Moves last' b' tail' state n next := by
  by_cases hb : b = byte '\n'
  · subst hb
    obtain ⟨e, he, behind, hbehind⟩ := exists_respell_cons (byte '\n') ends tail hends.ne_nil
    obtain ⟨rfl, rfl⟩ := h.unique (.lineEnd hs rfl last tail)
    exact ⟨e, behind, hbehind, .lineEnd hs (hends.bytes e he) last' behind⟩
  have hcons : respelled ends (b :: tail) = b :: respelled ends tail := respell_cons_of_ne hb ends tail
  have hstart {w : List UInt8} {found : Bool} (hw : Inline w)
      (h : w.isPrefixOf (b :: tail) = found) : w.isPrefixOf (b :: respelled ends tail) = found := by
    rw [← hcons, hends.isPrefixOf_eq hw, h]
  have hline {found : Bool} (h : opensLineComment b tail = found) :
      opensLineComment b (respelled ends tail) = found := by
    rw [opensLineComment, head?_bne, hends.head?_any_eq rfl, ← head?_bne, hstart (by decide) rfl]
    exact h
  have hempty : (respelled ends tail).isEmpty = tail.isEmpty := isEmpty_respell hends.ne_nil tail
  have hmarkOf (h : NoMark b tail) : NoMark b (respelled ends tail) :=
    ⟨hstart (by decide) h.closeTag, hline h.lineComment, hstart (by decide) h.blockComment⟩
  have hopener : opener? (b :: respelled ends tail) = opener? (b :: tail) := by
    rw [← hcons, hends.opener?_eq]
  refine ⟨b, respelled ends tail, hcons, ?_⟩
  cases h with
  | openTag h =>
      rw [← hends.openTagSize_eq, hcons]
      exact .openTag (hstart (by decide) h)
  | text h => exact .text (hstart (by decide) h)
  | closeTag h => exact .closeTag (hstart (by decide) h)
  | openLineComment hclose h => exact .openLineComment (hstart (by decide) hclose) (hline h)
  | openBlockComment hclose hnone h =>
      exact .openBlockComment (hstart (by decide) hclose) (hline hnone) (hstart (by decide) h)
  | openHeredoc hmark h hsize =>
      refine .openHeredoc (hmarkOf hmark) (hopener.trans h) ?_
      exact Nat.le_trans hsize (Nat.succ_le_succ (length_le_respell hends.ne_nil tail))
  | openLiteral hmark h hquote => exact .openLiteral (hmarkOf hmark) (hopener.trans h) hquote
  | plain hmark h hquote => exact .plain (hmarkOf hmark) (hopener.trans h) hquote
  | endLine h => exact .endLine h
  | leaveLine hend h => exact .leaveLine hend (hstart (by decide) h)
  | inLine hend h => exact .inLine hend (hstart (by decide) h)
  | closeBlock h => exact .closeBlock (hstart (by decide) h)
  | inBlock h => exact .inBlock (hstart (by decide) h)
  | escape h => exact .escape (by rwa [hempty])
  | closeLiteral hescape h => exact .closeLiteral (by rwa [hempty]) h
  | inLiteral hescape h => exact .inLiteral (by rwa [hempty]) h
  | @closeHeredoc label _ hline h =>
      have hlabel : IsLabel label := hs
      exact .closeHeredoc (hlast.trans hline) (by rwa [← hcons, hends.closer?_eq hlabel])
  | @inHeredoc label h =>
      have hlabel : IsLabel label := hs
      refine .inHeredoc fun hline => ?_
      rw [← hcons, hends.closer?_eq hlabel]
      exact h (hlast.symm.trans hline)

/-! ## Runs -/

theorem shown_of_isLineEnd (hidden : Bool) (hb : isLineEnd b = true) : shown hidden b = b := by
  rw [shown, hb]
  simp only [Bool.not_true, Bool.and_false, Bool.false_eq_true, ↓reduceIte]

theorem map_shown_of_lineEnds (hidden : Bool) (h : ∀ b ∈ text, isLineEnd b = true) :
    text.map (shown hidden) = text :=
  (List.map_congr_left fun b hb => shown_of_isLineEnd hidden (h b hb)).trans (List.map_id text)

theorem respelled_map_shown (hends : IsLineEnding ends) (hidden : Bool) (text : List UInt8) :
    (respelled ends text).map (shown hidden) = respelled ends (text.map (shown hidden)) := by
  refine respell_map (fun b => ⟨fun h => ?_, ?_⟩) (map_shown_of_lineEnds hidden hends.bytes) text
  · unfold shown at h
    split at h
    · cases h
    · exact h
  · rintro rfl
    exact shown_of_isLineEnd hidden rfl

/-- The scanner is at the same place of a script with another line end. -/
structure Place.Respelled (ends : List UInt8) (p p' : Place) : Prop where
  state : p'.state = p.state
  last : p'.last.all isLineEnd = p.last.all isLineEnd
  ahead : p'.ahead = respelled ends p.ahead

/-- Further bytes of a line end. -/
theorem exists_run_lineEnds (o : Blanking) (hs : state.Regular) (hstate : state ≠ .lineComment)
    {front : List UInt8} (h : ∀ b ∈ front, isLineEnd b = true) (last : Option UInt8)
    (rest : List UInt8) :
    ∃ steps, Run o ⟨state, last, front ++ rest⟩ steps ⟨state, front.getLast?.or last, rest⟩ ∧
      steps.flatMap Step.written = front := by
  have hnext : state.behindLineEnd = state := by
    cases state with
    | lineComment => exact absurd rfl hstate
    | _ => rfl
  induction front generalizing last with
  | nil => exact ⟨[], .refl _, rfl⟩
  | cons b front ih =>
      obtain ⟨hb, hfront⟩ := List.forall_mem_cons.mp h
      have hmoves := Moves.lineEnd hs hb last (front ++ rest)
      rw [hnext] at hmoves
      obtain ⟨steps, hrun, hwritten⟩ := ih hfront (some b)
      rw [getLast?_cons_or]
      refine ⟨_ :: steps, .step (State.step_complete hmoves o) hrun, ?_⟩
      rw [List.flatMap_cons, hwritten]
      exact congrArg (· :: front) (shown_of_isLineEnd _ hb)

theorem exists_eq_append_lf {taken : List UInt8} (h : byte '\n' ∉ taken.dropLast)
    (hmem : byte '\n' ∈ taken) : ∃ front, taken = front ++ [byte '\n'] ∧ byte '\n' ∉ front := by
  obtain ⟨front, back, rfl⟩ := List.append_of_mem hmem
  obtain rfl := eq_nil_of_not_mem_dropLast h
  rw [List.dropLast_concat] at h
  exact ⟨front, rfl, h⟩

/-- A step over the first bytes of the text. -/
theorem exists_run_of_moves (o : Blanking) {taken rest : List UInt8}
    (h : Moves last b tail state taken.length next) (hsplit : b :: tail = taken ++ rest) :
    ∃ r, Run o ⟨state, last, b :: tail⟩ [r] ⟨next, taken.getLast?.or last, rest⟩ ∧
      r.written = taken.map (shown (o.hides (state.layerTo next))) := by
  have hstep := State.step_complete h o
  have hafter : Place.after ⟨state, last, b :: tail⟩ taken.length next =
      ⟨next, taken.getLast?.or last, rest⟩ := by
    rw [Place.after, hsplit, List.take_left, List.drop_left]
  refine ⟨_, .step hstep (hafter ▸ .refl _), ?_⟩
  rw [hsplit, List.take_left]

/-- A step goes with one step or more of a script with another line end, which write the same but for
the line end. -/
theorem exists_run_respelled (hends : IsLineEnding ends) {r : Step} (hs : state.Regular)
    (hstep : state.step o last b tail = .ok r) (hlast : last'.all isLineEnd = last.all isLineEnd) :
    ∃ steps q', Run o ⟨state, last', respelled ends (b :: tail)⟩ steps q' ∧
      Place.Respelled ends (Place.after ⟨state, last, b :: tail⟩ r.taken r.next) q' ∧
      steps.flatMap Step.written = respelled ends r.written := by
  have hmoves := State.step_sound hstep
  obtain ⟨b', tail', hahead, hmoves'⟩ := hmoves.exists_respelled hends hs hlast
  obtain ⟨hlf, hcomment⟩ := hmoves.lf_last hs.proper
  have hwritten : r.written = ((b :: tail).take r.taken).map (shown (o.hides (state.layerTo r.next))) :=
    congrArg Step.written (Except.ok.inj (hstep.symm.trans (State.step_complete hmoves o)))
  have hlength : ((b :: tail).take r.taken).length = r.taken :=
    List.length_take_of_le (hmoves.taken_le hs.proper)
  have hsplit : b' :: tail' =
      respelled ends ((b :: tail).take r.taken) ++ respelled ends ((b :: tail).drop r.taken) := by
    rw [← hahead, ← respell_append, List.take_append_drop]
  rw [hahead, hwritten, ← respelled_map_shown hends]
  unfold Place.after
  dsimp only
  generalize (b :: tail).take r.taken = taken at *
  generalize (b :: tail).drop r.taken = rest at *
  rw [← hlength] at hmoves'
  by_cases hmem : byte '\n' ∈ taken
  · -- the first byte of the line end is taken for the LF, the others behind it
    obtain ⟨front, rfl, hfront⟩ := exists_eq_append_lf hlf hmem
    obtain ⟨e, further, rfl⟩ := List.exists_cons_of_ne_nil hends.ne_nil
    obtain ⟨he, hfurther⟩ := List.forall_mem_cons.mp hends.bytes
    have htaken : respelled (e :: further) (front ++ [byte '\n']) = (front ++ [e]) ++ further := by
      rw [respelled, respell_append, respell_of_not_mem hfront, respell_cons_self, respell_nil]
      simp
    have hsize : (front ++ [byte '\n']).length = (front ++ [e]).length := by
      rw [List.length_append, List.length_append]
      rfl
    rw [htaken, List.append_assoc] at hsplit
    rw [hsize] at hmoves'
    obtain ⟨first, hfirst, hfirstWritten⟩ := exists_run_of_moves o hmoves' hsplit
    obtain ⟨steps, hrun, hfurtherWritten⟩ := exists_run_lineEnds o (hs.of_moves hmoves) (hcomment hmem)
      hfurther ((front ++ [e]).getLast?.or last') (respelled (e :: further) rest)
    refine ⟨[first] ++ steps, _, hfirst.trans hrun, ⟨rfl, ?_, rfl⟩, ?_⟩
    · rw [List.getLast?_concat, List.getLast?_concat]
      cases hfound : further.getLast? with
      | none => exact he
      | some x => exact hfurther x (List.mem_of_getLast? hfound)
    · rw [List.flatMap_append, List.flatMap_singleton, hfurtherWritten, htaken, List.map_append,
        map_shown_of_lineEnds _ hfurther, hfirstWritten]
  · rw [respelled, respell_of_not_mem hmem] at hsplit ⊢
    obtain ⟨first, hfirst, hfirstWritten⟩ := exists_run_of_moves o hmoves' hsplit
    refine ⟨[first], _, hfirst, ⟨rfl, ?_, rfl⟩, ?_⟩
    · cases taken.getLast? with
      | none => exact hlast
      | some x => rfl
    · rw [List.flatMap_singleton, hfirstWritten]

theorem Run.exists_respelled (hends : IsLineEnding ends) {p p' q : Place} {steps : List Step}
    (h : Run o p steps q) (hs : p.state.Regular) (hp : p.Respelled ends p') :
    ∃ steps' q', Run o p' steps' q' ∧ q.Respelled ends q' ∧
      steps'.flatMap Step.written = respelled ends (steps.flatMap Step.written) := by
  induction h generalizing p' with
  | refl p => exact ⟨[], p', .refl _, hp, rfl⟩
  | @step state last b tail r steps q hstep further ih =>
      obtain ⟨state', last', ahead'⟩ := p'
      obtain ⟨hstate, hlast, hahead⟩ := hp
      dsimp only at hstate hlast hahead
      subst hstate hahead
      obtain ⟨first, q₁, hfirst, hq₁, hfirstWritten⟩ := exists_run_respelled hends hs hstep hlast
      obtain ⟨others, q', hothers, hq', hothersWritten⟩ :=
        ih (hs.of_moves (State.step_sound hstep)) hq₁
      refine ⟨first ++ others, q', hfirst.trans hothers, hq', ?_⟩
      rw [List.flatMap_append, hfirstWritten, hothersWritten, List.flatMap_cons]
      exact (respell_append _ _ _ _).symm

/-! ## Cleaning -/

theorem isLineEnding_encode {ends : List Char} (hends : IsOtherLineEnd ends) :
    IsLineEnding (encode ends) := by
  rcases hends with rfl | rfl
  · exact ⟨List.cons_ne_nil _ _, List.all_iff_forall_prop.mp (by decide)⟩
  · exact ⟨List.cons_ne_nil _ _, List.all_iff_forall_prop.mp (by decide)⟩

theorem UnclosedOpener.lf_not_mem (h : UnclosedOpener text) : byte '\n' ∉ text := by
  obtain ⟨indent, quote, label, rfl, hindent, hquote, hlabel⟩ := h
  simp only [List.mem_append, not_or]
  refine ⟨by decide, fun hmem => ?_, ?_, fun hmem => ?_⟩
  · cases hindent _ hmem
  · rcases hquote with rfl | rfl <;> decide
  · cases hlabel.2 _ hmem

/-- A script is cleaned alike whatever its line ends. -/
theorem clean_withLineEnds (o : Blanking) {ends : List Char} (hends : IsOtherLineEnd ends)
    (source : List Char) :
    clean o (withLineEnds ends source) = (clean o source).map (withLineEnds ends) := by
  obtain ⟨steps, q, hrun, hend⟩ := exists_run_to_end o .markup none (encode source) []
  have hp : Place.Respelled (encode ends) ⟨.markup, none, encode source⟩
      ⟨.markup, none, encode (withLineEnds ends source)⟩ :=
    ⟨rfl, rfl, encode_withLineEnds ends source⟩
  obtain ⟨steps', q', hrun', ⟨hstate, _, hahead⟩, hwritten⟩ :=
    hrun.exists_respelled (isLineEnding_encode hends) trivial hp
  rcases hend with hend | hstuck
  · rw [hend] at hahead
    have hencode := encode_decodeLossy_scan (hrun.scan_eq_ok hend)
    rw [hrun'.clean_eq_ok hahead, hrun.clean_eq_ok hend, hwritten]
    generalize steps.flatMap Step.written = written at hencode ⊢
    have hsame : respelled (encode ends) written = encode (withLineEnds ends (decodeLossy written)) := by
      rw [encode_withLineEnds, hencode]
      rfl
    rw [hsame, decodeLossy_encode]
    rfl
  · rw [respelled, respell_of_not_mem hstuck.ahead.lf_not_mem] at hahead
    have hstuck' : q'.Stuck := ⟨hstate.trans hstuck.state, hahead ▸ hstuck.ahead⟩
    rw [hrun'.clean_eq_error hstuck', hrun.clean_eq_error hstuck]
    rfl

theorem condense_withLineEnds {ends : List Char} (hends : IsOtherLineEnd ends) (source : List Char) :
    condense (withLineEnds ends source) = condense source := by
  rw [condense, condense, clean_withLineEnds .commentsOnly hends]
  cases clean .commentsOnly source with
  | error fault => rfl
  | ok cleaned => exact congrArg Except.ok (collapse_withLineEnds hends cleaned)

/-- Cleaning brings no CR into a script. -/
theorem cr_not_mem_of_clean {source cleaned : List Char} (h : clean o source = .ok cleaned)
    (hcr : '\r' ∉ source) : '\r' ∉ cleaned := by
  obtain ⟨written, _, hlength, hbytes, _, hencode, _⟩ := clean_keeps_places h
  intro hmem
  rw [← cr_mem_encode_iff, hencode] at hmem
  obtain ⟨i, hi, hwritten⟩ := List.getElem_of_mem hmem
  have hsource : i < (encode source).length := hlength ▸ hi
  rcases hbytes i _ (List.getElem?_eq_getElem hsource) with hkept | ⟨_, hspace⟩
  · rw [List.getElem?_eq_getElem hi, hwritten, Option.some.injEq] at hkept
    exact hcr (cr_mem_encode_iff.mp (hkept ▸ List.getElem_mem hsource))
  · rw [List.getElem?_eq_getElem hi, hwritten, Option.some.injEq] at hspace
    cases hspace

namespace Encoding

theorem check_eq_of_isOtherLineEnd (functions : List String) (path : String) {source : List Char}
    (hcr : '\r' ∉ source) {ends : List Char} (hends : IsOtherLineEnd ends) :
    check functions path (withLineEnds ends source) = check functions path source := by
  rw [check, check]
  cases pattern? functions with
  | none => rfl
  | some p =>
      dsimp only
      rw [clean_withLineEnds .all hends, physicalLines_withLineEnds hends hcr]
      cases hclean : clean .all source with
      | error fault => rfl
      | ok cleaned =>
          have hlines := physicalLines_withLineEnds hends (cr_not_mem_of_clean hclean hcr)
          exact congrArg (fun lines => Except.ok (entriesFrom p path 0 lines (physicalLines source))) hlines

/-- The same calls are reported in a script with LF for its line ends, in the script with CRLF and in
the script with CR: the entries have the same line numbers, messages and lines. If the script can be
cleaned, there is a list of entries; if not, the check fails alike for all three. -/
theorem check_withLineEnds (functions : List String) (path : String) {source : List Char}
    (hcr : '\r' ∉ source) :
    check functions path (withLineEnds crlf source) = check functions path source ∧
      check functions path (withLineEnds cr source) = check functions path source ∧
      ∀ cleaned, clean .all source = .ok cleaned →
        ∃ entries, check functions path source = .ok entries := by
  refine ⟨check_eq_of_isOtherLineEnd functions path hcr (.inl rfl),
    check_eq_of_isOtherLineEnd functions path hcr (.inr rfl), fun cleaned hclean => ?_⟩
  rw [check]
  cases pattern? functions with
  | none => exact ⟨_, rfl⟩
  | some p =>
      dsimp only
      rw [hclean]
      exact ⟨_, rfl⟩

/-- A call in a comment, which ends at the line end, and a call behind it. -/
theorem check_withLineEnds_behind_comment :
    let source := "<?php\n// eval\neval();\n".toList
    '\r' ∉ source ∧ clean .all source = .ok "<?php\n       \neval();\n".toList ∧
      ∃ entries, check ["eval"] "x.php" source = .ok entries ∧
        check ["eval"] "x.php" "<?php\r\n// eval\r\neval();\r\n".toList = .ok entries ∧
        check ["eval"] "x.php" "<?php\r// eval\reval();\r".toList = .ok entries := by
  intro source
  have hcr : '\r' ∉ source := by decide
  have hsequence : Sequence .markup (.openTag (mark "<?php") :: .plain (byte '\n') ::
      .lineComment (mark "//") (mark " eval") :: ((mark "\neval();\n").map Piece.plain ++ [])) :=
    .cons rfl (.inl rfl) trivial <|
    .cons rfl ⟨by decide, by decide⟩ trivial <|
    .cons rfl ⟨.inl rfl, List.all_iff_forall_prop.mp (by decide), by decide⟩ rfl <|
    sequence_plain _ (List.all_iff_forall_prop.mp (by decide)) (.nil _)
  have hclean : clean .all source = .ok "<?php\n       \neval();\n".toList :=
    clean_eq_ok_iff.mpr ⟨_, scan_sequence hsequence .all,
      decodeLossy_encode "<?php\n       \neval();\n".toList⟩
  obtain ⟨hcrlf, hlone, hentries⟩ := check_withLineEnds ["eval"] "x.php" hcr
  obtain ⟨entries, hentries⟩ := hentries _ hclean
  exact ⟨hcr, hclean, entries, hentries, hcrlf.trans hentries, hlone.trans hentries⟩

end Encoding

end ExtensionLint.Script
