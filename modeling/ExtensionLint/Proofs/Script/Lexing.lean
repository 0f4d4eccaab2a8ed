import ExtensionLint.Proofs.Script.Pieces
import ExtensionLint.Proofs.Script.Shape

/-!
# The scanner reads the grammar

The scanner reads each piece of a script whole (`Piece.reads`), so cleaning hides the comments and the
markup that a script is made of, and nothing else (`clean_sequence`).
-/

namespace ExtensionLint.Script

open Text Utf8

/-! ## Runs of bytes -/

theorem State.layerTo_self (state : State) : state.layerTo state = state.layer := by
  cases state <;> rfl

/-- One step over the bytes `taken`. -/
theorem Reads.one {state next : State} {last : Option UInt8} {b : UInt8} {tail : List UInt8}
    (taken rest : List UInt8) (htext : taken ++ rest = b :: tail)
    (h : Moves last b tail state taken.length next) :
    Reads ⟨state, last, taken ++ rest⟩ (taken.map (·, state.layerTo next))
      ⟨next, taken.getLast?.or last, rest⟩ := by
  have hreads := Reads.step h (.refl _)
  rw [Place.after, ← htext, List.take_left, List.drop_left, List.append_nil] at hreads
  exact hreads

/-- One step that only changes the state. -/
theorem Reads.still {state next : State} {last : Option UInt8} {b : UInt8} {tail : List UInt8}
    {l : List (UInt8 × Layer)} {q : Place} (h : Moves last b tail state 0 next)
    (further : Reads ⟨next, last, b :: tail⟩ l q) :
    Reads ⟨state, last, b :: tail⟩ l q :=
  Reads.step h further

theorem getLast?_cons_or (b : UInt8) (front : List UInt8) (last : Option UInt8) :
    (b :: front).getLast?.or last = front.getLast?.or (some b) := by
  rw [List.getLast?_cons]
  cases front.getLast? <;> rfl

/-- Bytes at which the scanner stays as it is. -/
theorem reads_bytes (state : State) (last : Option UInt8) (body rest : List UInt8)
    (h : ∀ front b back, body = front ++ b :: back →
      Moves (front.getLast?.or last) b (back ++ rest) state 1 state) :
    Reads ⟨state, last, body ++ rest⟩ (body.map (·, state.layer))
      ⟨state, body.getLast?.or last, rest⟩ := by
  induction body generalizing last with
  | nil => exact .refl _
  | cons b body ih =>
      have hfirst := Reads.one [b] (body ++ rest) rfl (h [] b body rfl)
      have hfurther := ih (some b) fun front x back hbody => by
        rw [← getLast?_cons_or b front last]
        exact h (b :: front) x back (by rw [hbody, List.cons_append])
      rw [state.layerTo_self] at hfirst
      rw [getLast?_cons_or]
      exact hfirst.trans hfurther

/-- Two bytes that do not stand in a text do not stand across its end either, unless the second begins
what follows. -/
theorem isPrefixOf_pair_eq_false {x y : UInt8} {body rest : List UInt8} (h : ¬ [x, y] <:+: body)
    (hrest : rest.head? ≠ some y) {front back : List UInt8} {b : UInt8}
    (hbody : body = front ++ b :: back) : [x, y].isPrefixOf (b :: (back ++ rest)) = false := by
  rw [Bool.eq_false_iff]
  intro hstart
  obtain ⟨behind, hbehind⟩ := List.isPrefixOf_iff_prefix.mp hstart
  obtain ⟨rfl, hback⟩ := List.cons.inj hbehind
  cases back with
  | nil =>
      rw [List.nil_append] at hback
      rw [← hback] at hrest
      exact hrest rfl
  | cons c back =>
      obtain ⟨rfl, _⟩ := List.cons.inj hback
      exact h ⟨front, back, by rw [hbody, List.append_assoc]; rfl⟩

/-! ## Markup and code -/

theorem reads_text {last : Option UInt8} {body rest : List UInt8} (h : ¬ mark "<?" <:+: body)
    (hrest : rest.head? ≠ some (byte '?')) :
    Reads ⟨.markup, last, body ++ rest⟩ (body.map (·, .markup))
      ⟨.markup, body.getLast?.or last, rest⟩ := by
  refine reads_bytes _ last body rest fun front b back hbody => .text ?_
  exact isPrefixOf_pair_eq_false h hrest hbody

theorem eq_of_lowerByte {b c : UInt8} (hc : ¬ (byte 'a' ≤ c ∧ c ≤ byte 'z')) (h : lowerByte b = c) :
    b = c := by
  rw [lowerByte] at h
  split at h
  · rename_i hcapital
    simp only [Bool.and_eq_true, decide_eq_true_eq, UInt8.le_iff_toNat_le] at hcapital
    have hA : (byte 'A').toNat = 65 := rfl
    have hZ : (byte 'Z').toNat = 90 := rfl
    have ha : (byte 'a').toNat = 97 := rfl
    have hz : (byte 'z').toNat = 122 := rfl
    have hlower : (b + 0x20).toNat = b.toNat + 32 := by
      rw [UInt8.toNat_add]
      have h32 : (0x20 : UInt8).toNat = 32 := rfl
      omega
    refine absurd ?_ hc
    rw [← h, UInt8.le_iff_toNat_le, UInt8.le_iff_toNat_le]
    omega
  · exact h

theorem openTagSize_append {tag : List UInt8} (rest : List UInt8)
    (h : tag.map lowerByte = mark "<?php" ∨ tag = mark "<?=") :
    (mark "<?").isPrefixOf (tag ++ rest) = true ∧ openTagSize (tag ++ rest) = tag.length := by
  rcases h with hphp | rfl
  · have hlength : tag.length = 5 := by
      rw [← List.length_map lowerByte, hphp]
      rfl
    have htake : (tag ++ rest).take 5 = tag := by rw [← hlength, List.take_left]
    constructor
    · match tag, hphp with
      | b :: c :: tag, hphp =>
          obtain ⟨hb, htag⟩ := List.cons.inj hphp
          obtain ⟨hc, _⟩ := List.cons.inj htag
          rw [eq_of_lowerByte (by decide) hb, eq_of_lowerByte (by decide) hc]
          rfl
    · rw [openTagSize, htake, if_pos hphp, hlength]
  · exact ⟨rfl, rfl⟩

theorem reads_openTag (last : Option UInt8) {tag : List UInt8} (rest : List UInt8)
    (h : tag.map lowerByte = mark "<?php" ∨ tag = mark "<?=") :
    Reads ⟨.markup, last, tag ++ rest⟩ (tag.map (·, .code)) ⟨.code, tag.getLast?.or last, rest⟩ := by
  obtain ⟨hopen, hsize⟩ := openTagSize_append rest h
  cases htext : tag ++ rest with
  | nil =>
      rw [htext] at hopen
      cases hopen
  | cons b tail =>
      rw [htext] at hopen hsize
      have hmoves : Moves last b tail .markup tag.length .code := hsize ▸ .openTag hopen
      rw [← htext]
      exact Reads.one tag rest htext hmoves

theorem reads_closeTag (last : Option UInt8) (rest : List UInt8) :
    Reads ⟨.code, last, mark "?>" ++ rest⟩ ((mark "?>").map (·, .code))
      ⟨.markup, some (byte '>'), rest⟩ := by
  have hmoves : Moves last (byte '?') (byte '>' :: rest) .code 2 .markup := .closeTag rfl
  exact Reads.one (mark "?>") rest rfl hmoves

theorem isPrefixOf_cons_of_ne {x b : UInt8} {m text : List UInt8} (h : b ≠ x) :
    (x :: m).isPrefixOf (b :: text) = false := by
  rw [List.isPrefixOf, beq_eq_false_iff_ne.mpr (Ne.symm h), Bool.false_and]

theorem opener?_cons_of_ne {b : UInt8} {text : List UInt8} (h : b ≠ byte '<') :
    opener? (b :: text) = none := by
  rw [Option.eq_none_iff_forall_ne_some]
  intro opener hopener
  obtain ⟨indent, quote, behind, htext, _⟩ := opener?_eq_some_iff.mp hopener
  exact h (List.cons.inj htext).1

theorem noMark_of_not_mem {b : UInt8} {tail : List UInt8} (h : b ∉ mark "#/?") : NoMark b tail := by
  have hne (c : UInt8) (hc : c ∈ mark "#/?") : b ≠ c := fun hb => h (hb ▸ hc)
  have hhash : (b == byte '#') = false := beq_eq_false_iff_ne.mpr (hne (byte '#') (by decide))
  have hslash : b ≠ byte '/' := hne (byte '/') (by decide)
  have hslashes : (mark "//").isPrefixOf (b :: tail) = false := isPrefixOf_cons_of_ne hslash
  exact ⟨isPrefixOf_cons_of_ne (hne (byte '?') (by decide)),
    by rw [opensLineComment, hslashes, hhash, Bool.false_and, Bool.or_false],
    isPrefixOf_cons_of_ne hslash⟩

theorem not_mem_of_plain {b : UInt8} (h : b ∉ mark "#/?<") : b ∉ mark "#/?" ∧ b ≠ byte '<' := by
  constructor
  · exact fun hb => h (List.mem_append_left (mark "<") hb)
  · rintro rfl
    exact h (by decide)

theorem reads_plain (last : Option UInt8) {b : UInt8} (rest : List UInt8)
    (h : isQuote b = false ∧ b ∉ mark "#/?<") :
    Reads ⟨.code, last, [b] ++ rest⟩ ([b].map (·, .code)) ⟨.code, some b, rest⟩ := by
  obtain ⟨hmark, hopener⟩ := not_mem_of_plain h.2
  exact Reads.one [b] rest rfl (.plain (noMark_of_not_mem hmark) (opener?_cons_of_ne hopener) h.1)

/-! ## Comments -/

theorem moves_openLineComment (last : Option UInt8) {sign text : List UInt8}
    (hsign : sign = mark "//" ∨ sign = mark "#" ∧ text.head? ≠ some (byte '[')) :
    ∃ b tail, sign ++ text = b :: tail ∧ Moves last b tail .code 0 .lineComment := by
  rcases hsign with rfl | ⟨rfl, htext⟩
  · exact ⟨byte '/', byte '/' :: text, rfl, .openLineComment rfl rfl⟩
  · have hopens : (text.head? != some (byte '[')) = true := bne_iff_ne.mpr htext
    have hline : opensLineComment (byte '#') text = true := by
      rw [opensLineComment, hopens, BEq.rfl, Bool.and_self, Bool.or_true]
    exact ⟨byte '#', text, rfl, .openLineComment (isPrefixOf_cons_of_ne (by decide)) hline⟩

/-- A comment up to where it ends; what ends it is still to be read. -/
theorem reads_lineComment (last : Option UInt8) {sign body rest : List UInt8}
    (hsign : sign = mark "//" ∨ sign = mark "#" ∧ body.head? ≠ some (byte '['))
    (hbody : ∀ b ∈ body, isLineEnd b = false) (hclose : ¬ mark "?>" <:+: body)
    (hrest : ∀ b, rest.head? = some b → isLineEnd b = true ∨ b = byte '?') :
    ∃ last', Reads ⟨.code, last, sign ++ (body ++ rest)⟩ ((sign ++ body).map (·, .comment))
      ⟨.lineComment, last', rest⟩ := by
  have hbracket : sign = mark "//" ∨ sign = mark "#" ∧ (body ++ rest).head? ≠ some (byte '[') := by
    refine hsign.imp_right (And.imp_right fun hhead => ?_)
    cases body with
    | nil =>
        intro hnext
        rcases hrest _ hnext with hend | hmark
        · cases hend
        · cases hmark
    | cons b body => exact hhead
  obtain ⟨b, tail, htext, hmoves⟩ := moves_openLineComment last hbracket
  have hsignBytes : ∀ x ∈ sign, isLineEnd x = false ∧ x ≠ byte '?' := by
    have hall : sign.all (fun x => !isLineEnd x && x != byte '?') = true := by
      rcases hsign with rfl | ⟨rfl, _⟩ <;> rfl
    intro x hx
    simpa using List.all_eq_true.mp hall x hx
  have hsignReads := reads_bytes .lineComment last sign (body ++ rest)
    fun front x back hfront => by
      have hx := hsignBytes x (by rw [hfront]; simp)
      exact .inLine hx.1 (isPrefixOf_cons_of_ne hx.2)
  have hnext : rest.head? ≠ some (byte '>') := by
    intro hnext
    rcases hrest _ hnext with hend | hmark
    · cases hend
    · cases hmark
  have hbodyReads := reads_bytes .lineComment (sign.getLast?.or last) body rest
    fun front x back hfront =>
      .inLine (hbody x (by rw [hfront]; simp)) (isPrefixOf_pair_eq_false hclose hnext hfront)
  rw [htext] at hsignReads ⊢
  rw [List.map_append]
  exact ⟨_, .still hmoves (hsignReads.trans hbodyReads)⟩

theorem reads_blockComment (last : Option UInt8) {body : List UInt8} (rest : List UInt8)
    (h : ¬ mark "*/" <:+: body) :
    Reads ⟨.code, last, mark "/*" ++ (body ++ (mark "*/" ++ rest))⟩
      ((mark "/*" ++ (body ++ mark "*/")).map (·, .comment)) ⟨.code, some (byte '/'), rest⟩ := by
  have hopen : Moves last (byte '/') (byte '*' :: (body ++ (mark "*/" ++ rest))) .code 2
      .blockComment :=
    .openBlockComment rfl rfl rfl
  have hnext : (mark "*/" ++ rest).head? ≠ some (byte '/') := by
    change some (byte '*') ≠ some (byte '/')
    decide
  have hbody := reads_bytes .blockComment (some (byte '*')) body (mark "*/" ++ rest)
    fun front x back hfront => .inBlock (isPrefixOf_pair_eq_false h hnext hfront)
  have hclose (last' : Option UInt8) :
      Moves last' (byte '*') (byte '/' :: rest) .blockComment 2 .code :=
    .closeBlock rfl
  rw [List.map_append, List.map_append]
  exact (Reads.one (mark "/*") _ rfl hopen).trans
    (hbody.trans (Reads.one (mark "*/") rest rfl (hclose _)))

/-! ## Literals -/

theorem reads_literalPart {quote : UInt8} (last : Option UInt8) {part : LiteralPart}
    (rest : List UInt8) (h : part.WellFormed quote) :
    ∃ last', Reads ⟨.literal quote, last, part.bytes ++ rest⟩ (part.bytes.map (·, .literal))
      ⟨.literal quote, last', rest⟩ := by
  cases part with
  | plain b =>
      have hescape : (b == byte '\\' && !rest.isEmpty) = false := by
        rw [beq_eq_false_iff_ne.mpr h.2, Bool.false_and]
      exact ⟨_, Reads.one [b] rest rfl (.inLiteral hescape (beq_eq_false_iff_ne.mpr h.1))⟩
  | escaped b =>
      have hmoves : Moves last (byte '\\') (b :: rest) (.literal quote) 2 (.literal quote) :=
        .escape rfl
      exact ⟨_, Reads.one [byte '\\', b] rest rfl hmoves⟩

theorem reads_literalParts {quote : UInt8} (last : Option UInt8) {parts : List LiteralPart}
    (rest : List UInt8) (h : ∀ part ∈ parts, part.WellFormed quote) :
    ∃ last', Reads ⟨.literal quote, last, parts.flatMap LiteralPart.bytes ++ rest⟩
      ((parts.flatMap LiteralPart.bytes).map (·, .literal)) ⟨.literal quote, last', rest⟩ := by
  induction parts generalizing last with
  | nil => exact ⟨last, .refl _⟩
  | cons part parts ih =>
      obtain ⟨hpart, hparts⟩ := List.forall_mem_cons.mp h
      obtain ⟨last₁, hfirst⟩ :=
        reads_literalPart last (parts.flatMap LiteralPart.bytes ++ rest) hpart
      obtain ⟨last₂, hfurther⟩ := ih last₁ hparts
      rw [List.flatMap_cons, List.append_assoc, List.map_append]
      exact ⟨last₂, hfirst.trans hfurther⟩

theorem isQuote_eq {quote : UInt8} (h : isQuote quote = true) :
    quote = byte '\'' ∨ quote = byte '"' ∨ quote = byte '`' := by
  simpa only [isQuote, Bool.or_eq_true, beq_iff_eq, or_assoc] using h

theorem reads_literal (last : Option UInt8) {quote : UInt8} {parts : List LiteralPart}
    (rest : List UInt8) (hquote : isQuote quote = true)
    (hparts : ∀ part ∈ parts, part.WellFormed quote) :
    Reads ⟨.code, last, [quote] ++ (parts.flatMap LiteralPart.bytes ++ ([quote] ++ rest))⟩
      ((quote :: (parts.flatMap LiteralPart.bytes ++ [quote])).map (·, .literal))
      ⟨.code, some quote, rest⟩ := by
  have hplain : quote ∉ mark "#/?<" ∧ quote ≠ byte '\\' := by
    rcases isQuote_eq hquote with rfl | rfl | rfl <;> decide
  obtain ⟨hmark, hopener⟩ := not_mem_of_plain hplain.1
  have hopen : Moves last quote (parts.flatMap LiteralPart.bytes ++ ([quote] ++ rest)) .code 1
      (.literal quote) :=
    .openLiteral (noMark_of_not_mem hmark) (opener?_cons_of_ne hopener) hquote
  obtain ⟨last', hinner⟩ := reads_literalParts (some quote) ([quote] ++ rest) hparts
  have hescape : (quote == byte '\\' && !rest.isEmpty) = false := by
    rw [beq_eq_false_iff_ne.mpr hplain.2, Bool.false_and]
  have hclose : Moves last' quote rest (.literal quote) 1 .code := .closeLiteral hescape BEq.rfl
  rw [List.map_cons, List.map_append]
  exact (Reads.one [quote] _ rfl hopen).trans (hinner.trans (Reads.one [quote] rest rfl hclose))

/-! ## Heredocs -/

theorem reads_opener (last : Option UInt8) {h : Heredoc} (rest : List UInt8) (hh : h.WellFormed)
    (hrest : rest.head?.any isLabelByte = false) :
    ∃ last', Reads ⟨.code, last, h.opener ++ rest⟩ (h.opener.map (·, .literal))
      ⟨.heredoc h.label, last', rest⟩ := by
  have htext : h.opener ++ rest =
      mark "<<<" ++ (h.indent ++ (h.quote ++ (h.label ++ (h.quote ++ rest)))) := by
    simp only [Heredoc.opener, List.append_assoc]
  have hbehind : (h.quote ++ rest).head?.any isLabelByte = false := by
    rcases hh.quote with hquote | hquote | hquote <;> rw [hquote]
    · exact hrest
    · rfl
    · rfl
  have hsize : h.opener.length =
      3 + h.indent.length + h.quote.length + h.label.length + h.quote.length := by
    have hmark : (mark "<<<").length = 3 := rfl
    simp only [Heredoc.opener, List.length_append, hmark]
    omega
  have hopener : opener? (h.opener ++ rest) = some ⟨h.label, h.opener.length⟩ :=
    opener?_eq_some_iff.mpr ⟨h.indent, h.quote, h.quote ++ rest, htext, hh.indent, hh.quote, hh.label,
      hbehind, hsize⟩
  have hcons : h.opener ++ rest =
      byte '<' :: (mark "<<" ++ (h.indent ++ (h.quote ++ (h.label ++ (h.quote ++ rest))))) := htext
  have hlength : h.opener.length ≤ (h.opener ++ rest).length := by
    rw [List.length_append]
    exact Nat.le_add_right _ _
  rw [hcons] at hopener hlength
  exact ⟨_, Reads.one h.opener rest hcons
    (.openHeredoc (noMark_of_not_mem (by decide)) hopener hlength)⟩

theorem isLineEnd_eq_false {b : UInt8} (h : isIndent b = true ∨ isLabelByte b = true) :
    isLineEnd b = false := by
  rw [Bool.eq_false_iff]
  intro hend
  simp only [isLineEnd, Bool.or_eq_true, beq_iff_eq] at hend
  rcases hend with rfl | rfl <;> rcases h with h | h <;> cases h

/-- What closes a heredoc stands in one line. -/
theorem closer?_line {label content rest : List UInt8} (hlabel : IsLabel label)
    (hcontent : ¬ Closes label content) (hrest : rest.head?.any isLineEnd = true) :
    closer? label (content ++ rest) = none := by
  rw [Option.eq_none_iff_forall_ne_some]
  intro size hcloser
  obtain ⟨indent, behind, htext, hindent, hnext, _⟩ := (closer?_eq_some_iff hlabel).mp hcloser
  rw [← List.append_assoc] at htext
  rcases List.append_eq_append_iff.mp htext with ⟨spill, hspill, hrestEq⟩ | ⟨left, hleft, hbehind⟩
  · cases spill with
    | nil =>
        rw [List.append_nil] at hspill
        exact hcontent ⟨indent, [], by rw [List.append_nil, hspill], hindent, rfl⟩
    | cons b spill =>
        rw [hrestEq] at hrest
        have hend : isLineEnd b = true := hrest
        have hb : b ∈ indent ++ label := by rw [hspill]; simp
        have hkind := (List.mem_append.mp hb).imp (hindent b) (hlabel.2 b)
        rw [isLineEnd_eq_false hkind] at hend
        cases hend
  · refine hcontent ⟨indent, left, by rw [hleft, List.append_assoc], hindent, ?_⟩
    cases left with
    | nil => rfl
    | cons b left =>
        rw [hbehind] at hnext
        exact hnext

theorem not_closes_nil {label : List UInt8} (hlabel : IsLabel label) : ¬ Closes label [] := by
  rintro ⟨indent, behind, htext, _⟩
  obtain ⟨_, hbehind⟩ := List.append_eq_nil_iff.mp htext.symm
  exact hlabel.1 (List.append_eq_nil_iff.mp hbehind).1

theorem reads_content (last : Option UInt8) {label content rest : List UInt8} (hlabel : IsLabel label)
    (hends : ∀ b ∈ content, isLineEnd b = false) (hcontent : ¬ Closes label content)
    (hrest : rest.head?.any isLineEnd = true) :
    Reads ⟨.heredoc label, last, content ++ rest⟩ (content.map (·, .literal))
      ⟨.heredoc label, content.getLast?.or last, rest⟩ := by
  refine reads_bytes _ last content rest fun front b back hfront => .inHeredoc ?_
  cases hlast : front.getLast? with
  | none =>
      intro _
      rw [List.getLast?_eq_none_iff.mp hlast, List.nil_append] at hfront
      rw [← List.cons_append, ← hfront]
      exact closer?_line hlabel hcontent hrest
  | some x =>
      intro hend
      have hx : x ∈ content := by
        rw [hfront]
        exact List.mem_append_left _ (List.mem_of_getLast? hlast)
      have hend : isLineEnd x = true := hend
      rw [hends x hx] at hend
      cases hend

theorem reads_lineBreak (last : Option UInt8) {label lineBreak : List UInt8} (rest : List UInt8)
    (hlabel : IsLabel label) (h : IsLineBreak lineBreak) :
    ∃ last', last'.all isLineEnd = true ∧
      Reads ⟨.heredoc label, last, lineBreak ++ rest⟩ (lineBreak.map (·, .literal))
        ⟨.heredoc label, last', rest⟩ := by
  have hends : (∀ b ∈ lineBreak, isLineEnd b = true) ∧
      (lineBreak.getLast?.or last).all isLineEnd = true := by
    rcases h with rfl | rfl | rfl
    · exact ⟨List.all_eq_true.mp rfl, rfl⟩
    · exact ⟨List.all_eq_true.mp rfl, rfl⟩
    · exact ⟨List.all_eq_true.mp rfl, rfl⟩
  refine ⟨_, hends.2, reads_bytes _ last lineBreak rest fun front b back hfront =>
    .inHeredoc fun _ => ?_⟩
  have hb : isLineEnd b = true := hends.1 b (by rw [hfront]; simp)
  have hnone : closer? label ([] ++ b :: (back ++ rest)) = none :=
    closer?_line hlabel (not_closes_nil hlabel) hb
  exact hnone

theorem reads_line (last : Option UInt8) {label : List UInt8} {line : Line} (rest : List UInt8)
    (hlabel : IsLabel label) (h : line.WellFormed label) :
    ∃ last', last'.all isLineEnd = true ∧
      Reads ⟨.heredoc label, last, line.bytes ++ rest⟩ (line.bytes.map (·, .literal))
        ⟨.heredoc label, last', rest⟩ := by
  have hbreak : (line.lineBreak ++ rest).head?.any isLineEnd = true := by
    rcases h.lineBreak with hline | hline | hline <;> rw [hline] <;> rfl
  have hcontent := reads_content last hlabel h.content h.notClosing hbreak
  obtain ⟨last', hlast', hbreakReads⟩ := reads_lineBreak _ rest hlabel h.lineBreak
  rw [Line.bytes, List.append_assoc, List.map_append]
  exact ⟨last', hlast', hcontent.trans hbreakReads⟩

theorem reads_lines (last : Option UInt8) {label : List UInt8} {lines : List Line} (rest : List UInt8)
    (hlabel : IsLabel label) (hlast : last.all isLineEnd = true)
    (h : ∀ line ∈ lines, line.WellFormed label) :
    ∃ last', last'.all isLineEnd = true ∧
      Reads ⟨.heredoc label, last, lines.flatMap Line.bytes ++ rest⟩
        ((lines.flatMap Line.bytes).map (·, .literal)) ⟨.heredoc label, last', rest⟩ := by
  induction lines generalizing last with
  | nil => exact ⟨last, hlast, .refl _⟩
  | cons line lines ih =>
      obtain ⟨hline, hlines⟩ := List.forall_mem_cons.mp h
      obtain ⟨last₁, hlast₁, hfirst⟩ := reads_line last (lines.flatMap Line.bytes ++ rest) hlabel hline
      obtain ⟨last₂, hlast₂, hfurther⟩ := ih last₁ hlast₁ hlines
      rw [List.flatMap_cons, List.append_assoc, List.map_append]
      exact ⟨last₂, hlast₂, hfirst.trans hfurther⟩

theorem reads_closer (last : Option UInt8) {margin label : List UInt8} (rest : List UInt8)
    (hlabel : IsLabel label) (hlast : last.all isLineEnd = true)
    (hmargin : ∀ b ∈ margin, isIndent b = true) (hrest : rest.head?.any isLabelByte = false) :
    ∃ last', Reads ⟨.heredoc label, last, margin ++ (label ++ rest)⟩
      ((margin ++ label).map (·, .literal)) ⟨.code, last', rest⟩ := by
  have hcloser : closer? label (margin ++ (label ++ rest)) = some (margin ++ label).length :=
    (closer?_eq_some_iff hlabel).mpr ⟨margin, rest, rfl, hmargin, hrest, List.length_append⟩
  rw [← List.append_assoc] at hcloser ⊢
  cases htext : margin ++ label ++ rest with
  | nil =>
      obtain ⟨b, tail, rfl, _⟩ := hlabel.head
      simp at htext
  | cons b tail =>
      rw [htext] at hcloser
      rw [← htext]
      exact ⟨_, Reads.one (margin ++ label) rest htext (.closeHeredoc hlast hcloser)⟩

theorem reads_heredoc (last : Option UInt8) {h : Heredoc} (rest : List UInt8) (hh : h.WellFormed)
    (hrest : rest.head?.any isLabelByte = false) :
    ∃ last', Reads ⟨.code, last, h.bytes ++ rest⟩ (h.bytes.map (·, .literal)) ⟨.code, last', rest⟩ := by
  have hbreak (text : List UInt8) : (h.lineBreak ++ text).head?.any isLabelByte = false := by
    rcases hh.lineBreak with hline | hline | hline <;> rw [hline] <;> rfl
  obtain ⟨last₁, hopener⟩ := reads_opener last _ hh (hbreak _)
  obtain ⟨last₂, hlast₂, hfirst⟩ := reads_lineBreak last₁ _ hh.label hh.lineBreak
  obtain ⟨last₃, hlast₃, hlines⟩ := reads_lines last₂ _ hh.label hlast₂ hh.lines
  obtain ⟨last₄, hcloser⟩ := reads_closer last₃ rest hh.label hlast₃ hh.margin hrest
  simp only [Heredoc.bytes, List.append_assoc, List.map_append]
  rw [List.map_append] at hcloser
  exact ⟨last₄, hopener.trans (hfirst.trans (hlines.trans hcloser))⟩

/-! ## Pieces -/

/-- What the scanner is in the middle of behind a piece. A comment to the end of the line is not over
yet. -/
def Piece.leaves : Piece → State
  | .text _ | .closeTag => .markup
  | .lineComment _ _ => .lineComment
  | _ => .code

def Piece.layer : Piece → Layer
  | .text _ => .markup
  | .lineComment _ _ | .blockComment _ => .comment
  | .literal _ _ | .heredoc _ => .literal
  | _ => .code

def Mode.state : Mode → State
  | .markup => .markup
  | .code => .code

theorem Piece.bytes_ne_nil {p : Piece} (h : p.WellFormed) (hmode : p.mode = .code) : p.bytes ≠ [] := by
  cases p with
  | text _ | openTag _ => cases hmode
  | lineComment sign body =>
      obtain ⟨rfl | ⟨rfl, _⟩, _⟩ := h
      · exact List.cons_ne_nil _ _
      · exact List.cons_ne_nil _ _
  | _ => exact List.cons_ne_nil _ _

theorem head?_after_text {body : List UInt8} {rest : List Piece}
    (hnext : (Piece.text body).Precedes rest.head?) (hrest : Sequence .markup rest) :
    (rest.flatMap Piece.bytes).head? ≠ some (byte '?') := by
  cases hrest with
  | nil => exact nofun
  | @cons _ p rest _ h _ _ =>
      obtain ⟨tag, rfl⟩ := hnext p rfl
      obtain ⟨hopen, _⟩ := openTagSize_append (rest.flatMap Piece.bytes) h
      obtain ⟨behind, hbehind⟩ := List.isPrefixOf_iff_prefix.mp hopen
      change (tag ++ rest.flatMap Piece.bytes).head? ≠ some (byte '?')
      rw [← hbehind]
      change some (byte '<') ≠ some (byte '?')
      decide

theorem head?_after_lineComment {sign body : List UInt8} {rest : List Piece}
    (hnext : (Piece.lineComment sign body).Precedes rest.head?) :
    ∀ b, (rest.flatMap Piece.bytes).head? = some b → isLineEnd b = true ∨ b = byte '?' := by
  cases rest with
  | nil => exact nofun
  | cons p rest =>
      have hends : EndsLineComment (some p) := hnext
      cases p with
      | closeTag =>
          intro b hb
          exact .inr (Option.some.inj hb).symm
      | plain x =>
          intro b hb
          exact .inl (Option.some.inj hb ▸ hends)
      | _ => cases hends

theorem head?_after_heredoc {d : Heredoc} {rest : List Piece}
    (hnext : (Piece.heredoc d).Precedes rest.head?) (hrest : Sequence .code rest) :
    (rest.flatMap Piece.bytes).head?.any isLabelByte = false := by
  cases hrest with
  | nil => rfl
  | @cons _ p rest hmode h _ _ =>
      have hhead := hnext p rfl
      have hne := Piece.bytes_ne_nil h hmode
      rw [List.flatMap_cons]
      cases hbytes : p.bytes with
      | nil => exact absurd hbytes hne
      | cons b tail =>
          rw [hbytes] at hhead
          exact hhead

/-- The scanner reads a piece whole. -/
theorem Piece.reads (last : Option UInt8) {p : Piece} {rest : List Piece} (h : p.WellFormed)
    (hnext : p.Precedes rest.head?) (hrest : Sequence p.nextMode rest) :
    ∃ last', Reads ⟨p.mode.state, last, p.bytes ++ rest.flatMap Piece.bytes⟩
      (p.bytes.map (·, p.layer)) ⟨p.leaves, last', rest.flatMap Piece.bytes⟩ := by
  cases p with
  | text body => exact ⟨_, reads_text h (head?_after_text hnext hrest)⟩
  | openTag tag => exact ⟨_, reads_openTag last _ h⟩
  | closeTag => exact ⟨_, reads_closeTag last _⟩
  | plain b => exact ⟨_, reads_plain last _ h⟩
  | lineComment sign body =>
      have hreads := reads_lineComment last h.1 h.2.1 h.2.2 (head?_after_lineComment hnext)
      rwa [← List.append_assoc] at hreads
  | blockComment body =>
      have hreads := reads_blockComment last (rest.flatMap Piece.bytes) h
      rw [← List.append_assoc body, ← List.append_assoc] at hreads
      exact ⟨_, hreads⟩
  | literal quote parts =>
      have hreads := reads_literal last (rest.flatMap Piece.bytes) h.1 h.2
      rw [← List.append_assoc (parts.flatMap _)] at hreads
      exact ⟨_, hreads⟩
  | heredoc d => exact reads_heredoc last _ h (head?_after_heredoc hnext hrest)

/-- The state in which a piece can be read: its own, or a comment that the piece ends. -/
def Enters (state : State) (m : Mode) (pieces : List Piece) : Prop :=
  state = m.state ∨ state = .lineComment ∧ m = .code ∧ EndsLineComment pieces.head?

theorem Piece.enters_next {p : Piece} {rest : List Piece} (hnext : p.Precedes rest.head?) :
    Enters p.leaves p.nextMode rest := by
  cases p with
  | lineComment sign body => exact .inr ⟨rfl, rfl, hnext⟩
  | _ => exact .inl rfl

/-- What ends a comment is read in the comment as it is read in code. -/
theorem reads_in_lineComment {last last' : Option UInt8} {p : Piece} {rest : List UInt8}
    (hends : EndsLineComment (some p))
    (hreads : Reads ⟨.code, last, p.bytes ++ rest⟩ (p.bytes.map (·, p.layer)) ⟨p.leaves, last', rest⟩) :
    ∃ last', Reads ⟨.lineComment, last, p.bytes ++ rest⟩ (p.bytes.map (·, p.layer))
      ⟨p.leaves, last', rest⟩ := by
  cases p with
  | closeTag =>
      have hmoves : Moves last (byte '?') (byte '>' :: rest) .lineComment 0 .code := .leaveLine rfl rfl
      exact ⟨last', .still hmoves hreads⟩
  | plain b =>
      have hend : isLineEnd b = true := hends
      exact ⟨_, Reads.one [b] rest rfl (.endLine hend)⟩
  | _ => cases hends

/-- The scanner reads a sequence of pieces to its end, each piece in its layer. -/
theorem Sequence.reads {m : Mode} {pieces : List Piece} (h : Sequence m pieces) {state : State}
    (hstate : Enters state m pieces) (last : Option UInt8) :
    ∃ q, Reads ⟨state, last, pieces.flatMap Piece.bytes⟩
      (pieces.flatMap fun p => p.bytes.map (·, p.layer)) q ∧ q.ahead = [] := by
  -- `Enters` holds between any two pieces, where a comment may still wait for its end
  induction h generalizing state last with
  | nil m => exact ⟨_, .refl _, rfl⟩
  | @cons m p rest hmode h hnext hrest ih =>
      have hpiece : ∃ last', Reads ⟨state, last, p.bytes ++ rest.flatMap Piece.bytes⟩
          (p.bytes.map (·, p.layer)) ⟨p.leaves, last', rest.flatMap Piece.bytes⟩ := by
        obtain ⟨last', hreads⟩ := Piece.reads last h hnext hrest
        rw [hmode] at hreads
        rcases hstate with rfl | ⟨rfl, rfl, hends⟩
        · exact ⟨last', hreads⟩
        · exact reads_in_lineComment hends hreads
      obtain ⟨last', hfirst⟩ := hpiece
      obtain ⟨q, hfurther, hend⟩ := ih (Piece.enters_next hnext) last'
      rw [List.flatMap_cons, List.flatMap_cons]
      exact ⟨q, hfirst.trans hfurther, hend⟩

/-! ## Cleaning a sequence of pieces -/

/-- What is written for a piece. -/
def Piece.written (o : Blanking) (p : Piece) : List UInt8 := p.bytes.map (shown (p.hidden o))

theorem Piece.hides_layer (o : Blanking) (p : Piece) : o.hides p.layer = p.hidden o := by
  cases p <;> rfl

theorem scan_sequence {pieces : List Piece} (h : Sequence .markup pieces) (o : Blanking) :
    scan o (pieces.flatMap Piece.bytes) = .ok (pieces.flatMap (Piece.written o)) := by
  obtain ⟨q, hreads, hend⟩ := h.reads (.inl rfl) none
  refine scan_eq_ok_iff.mpr ⟨_, q, hreads, hend, ?_⟩
  rw [List.map_flatMap]
  refine congrArg (pieces.flatMap ·) (funext fun p => ?_)
  rw [map_write, p.hides_layer, Piece.written]

/-- A script made of pieces is cleaned without failure, and the result is made of the same pieces:
comments are hidden with their marks if comments are to be hidden, text is hidden if markup is, and
everything else is as it was. -/
theorem clean_sequence {pieces : List Piece} (h : Sequence .markup pieces) {source : List Char}
    (hsource : encode source = pieces.flatMap Piece.bytes) (o : Blanking) :
    ∃ cleaned, clean o source = .ok cleaned ∧ encode cleaned = pieces.flatMap (Piece.written o) := by
  have hscan : scan o (encode source) = .ok (pieces.flatMap (Piece.written o)) := by
    rw [hsource]
    exact scan_sequence h o
  exact ⟨_, clean_eq_ok_iff.mpr ⟨_, hscan, rfl⟩, encode_decodeLossy_scan hscan⟩

theorem clean_sequence_marks_in_literals :
    ∃ cleaned, clean .all "<?php '//';<<<E\n E1\nE;#é?>b".toList = .ok cleaned ∧
      encode cleaned = encode "<?php '//';<<<E\n E1\nE;   ?> ".toList := by
  have hlabel : IsLabel (mark "E") := ⟨by decide, List.forall_mem_singleton.mpr rfl⟩
  have hline : Line.WellFormed (mark "E") ⟨mark " E1", mark "\n"⟩ := by
    refine ⟨List.forall_mem_cons.mpr ⟨rfl, List.forall_mem_cons.mpr ⟨rfl,
      List.forall_mem_singleton.mpr rfl⟩⟩, .inl rfl, ?_⟩
    rintro ⟨indent, behind, htext, hindent, hnext⟩
    have hcloser := (closer?_eq_some_iff hlabel).mpr ⟨indent, behind, htext, hindent, hnext, rfl⟩
    have hnone : closer? (mark "E") (mark " E1") = none := by decide
    rw [hnone] at hcloser
    cases hcloser
  let d : Heredoc := ⟨[], [], mark "E", mark "\n", [⟨mark " E1", mark "\n"⟩], []⟩
  have hd : d.WellFormed :=
    ⟨List.forall_mem_nil _, .inl rfl, hlabel, .inl rfl, List.forall_mem_singleton.mpr hline,
      List.forall_mem_nil _⟩
  have hsequence : Sequence .markup [.openTag (mark "<?php"), .plain (byte ' '),
      .literal (byte '\'') [.plain (byte '/'), .plain (byte '/')], .plain (byte ';'), .heredoc d,
      .plain (byte ';'), .lineComment (mark "#") (encode ['é']), .closeTag, .text (mark "b")] := by
    refine .cons rfl (.inl rfl) trivial ?_
    refine .cons rfl ⟨by decide, by decide⟩ trivial ?_
    refine .cons rfl ⟨by decide, by decide⟩ trivial ?_
    refine .cons rfl ⟨by decide, by decide⟩ trivial ?_
    refine .cons rfl hd (fun p hp => ?_) ?_
    · cases hp
      rfl
    refine .cons rfl ⟨by decide, by decide⟩ trivial ?_
    have hcomment : ∀ b ∈ encode ['é'], isLineEnd b = false :=
      List.forall_mem_cons.mpr ⟨rfl, List.forall_mem_singleton.mpr rfl⟩
    refine .cons rfl ⟨.inr ⟨rfl, by decide⟩, hcomment, by decide⟩ trivial ?_
    refine .cons rfl trivial trivial ?_
    have htext : ¬ mark "<?" <:+: mark "b" := by decide
    exact .cons rfl htext nofun (.nil _)
  exact clean_sequence hsequence rfl .all

end ExtensionLint.Script
