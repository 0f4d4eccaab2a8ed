import ExtensionLint.Script.Scan

/-!
# Readings of a script

The scanner follows rules that do not mention what it hides (`State.step_sound`,
`State.step_complete`). So a script has one reading, which gives each byte its layer; what is written is
the reading, seen through a choice of layers to hide (`scan_eq_ok_iff`).
-/

namespace ExtensionLint.Script

open Text

/-- What a byte of a script belongs to. Literals include the heredocs. -/
inductive Layer
  | markup
  | code
  | comment
  | literal
  deriving DecidableEq

def Blanking.hides (o : Blanking) : Layer → Bool
  | .markup => o.markup
  | .comment => o.comments
  | .code | .literal => false

/-- The layer of what stands between two changes of state. -/
def State.layer : State → Layer
  | .markup => .markup
  | .code => .code
  | .lineComment | .blockComment => .comment
  | .literal _ | .heredoc _ => .literal

/-- The layer of what a step from one state to another takes: a tag is code, and the marks around a
comment or a literal belong to it. -/
def State.layerTo : State → State → Layer
  | .markup, .markup => .markup
  | .markup, _ => .code
  | .code, .blockComment => .comment
  | .code, .literal _ | .code, .heredoc _ => .literal
  | .code, _ => .code
  | .lineComment, .lineComment => .comment
  | .lineComment, _ => .code
  | .blockComment, _ => .comment
  | .literal _, _ | .heredoc _, _ => .literal

/-- A byte of the given layer, as it is written. -/
def Blanking.write (o : Blanking) (b : UInt8 × Layer) : UInt8 := shown (o.hides b.2) b.1

/-! ## The rules -/

/-- Whether a comment to the end of the line begins. -/
abbrev opensLineComment (b : UInt8) (tail : List UInt8) : Bool :=
  (mark "//").isPrefixOf (b :: tail) || (b == byte '#' && tail.head? != some (byte '['))

theorem mem_of_opensLineComment {b : UInt8} {tail : List UInt8} (h : opensLineComment b tail = true) :
    b = byte '/' ∨ b = byte '#' := by
  rw [opensLineComment, Bool.or_eq_true, Bool.and_eq_true, beq_iff_eq] at h
  refine h.imp (fun hslashes => ?_) And.left
  exact (List.cons_prefix_cons.mp (List.isPrefixOf_iff_prefix.mp hslashes)).1.symm

/-- No tag closes and no comment begins. -/
structure NoMark (b : UInt8) (tail : List UInt8) : Prop where
  closeTag : (mark "?>").isPrefixOf (b :: tail) = false
  lineComment : opensLineComment b tail = false
  blockComment : (mark "/*").isPrefixOf (b :: tail) = false

/-- The rules of the scanner: how many bytes it takes at the byte `b`, with `tail` behind it and `last`
before it, and how its state changes. -/
inductive Moves (last : Option UInt8) (b : UInt8) (tail : List UInt8) : State → Nat → State → Prop
  | openTag (h : (mark "<?").isPrefixOf (b :: tail) = true) :
      Moves last b tail .markup (openTagSize (b :: tail)) .code
  | text (h : (mark "<?").isPrefixOf (b :: tail) = false) : Moves last b tail .markup 1 .markup
  | closeTag (h : (mark "?>").isPrefixOf (b :: tail) = true) : Moves last b tail .code 2 .markup
  | openLineComment (hclose : (mark "?>").isPrefixOf (b :: tail) = false)
      (h : opensLineComment b tail = true) : Moves last b tail .code 0 .lineComment
  | openBlockComment (hclose : (mark "?>").isPrefixOf (b :: tail) = false)
      (hline : opensLineComment b tail = false) (h : (mark "/*").isPrefixOf (b :: tail) = true) :
      Moves last b tail .code 2 .blockComment
  | openHeredoc {opener : Opener} (hmark : NoMark b tail) (h : opener? (b :: tail) = some opener)
      (hsize : opener.size ≤ (b :: tail).length) :
      Moves last b tail .code opener.size (.heredoc opener.label)
  | openLiteral (hmark : NoMark b tail) (hheredoc : opener? (b :: tail) = none)
      (h : isQuote b = true) : Moves last b tail .code 1 (.literal b)
  | plain (hmark : NoMark b tail) (hheredoc : opener? (b :: tail) = none) (h : isQuote b = false) :
      Moves last b tail .code 1 .code
  | endLine (h : isLineEnd b = true) : Moves last b tail .lineComment 1 .code
  | leaveLine (hend : isLineEnd b = false) (h : (mark "?>").isPrefixOf (b :: tail) = true) :
      Moves last b tail .lineComment 0 .code
  | inLine (hend : isLineEnd b = false) (h : (mark "?>").isPrefixOf (b :: tail) = false) :
      Moves last b tail .lineComment 1 .lineComment
  | closeBlock (h : (mark "*/").isPrefixOf (b :: tail) = true) : Moves last b tail .blockComment 2 .code
  | inBlock (h : (mark "*/").isPrefixOf (b :: tail) = false) :
      Moves last b tail .blockComment 1 .blockComment
  | escape {quote : UInt8} (h : (b == byte '\\' && !tail.isEmpty) = true) :
      Moves last b tail (.literal quote) 2 (.literal quote)
  | closeLiteral {quote : UInt8} (hescape : (b == byte '\\' && !tail.isEmpty) = false)
      (h : (b == quote) = true) : Moves last b tail (.literal quote) 1 .code
  | inLiteral {quote : UInt8} (hescape : (b == byte '\\' && !tail.isEmpty) = false)
      (h : (b == quote) = false) : Moves last b tail (.literal quote) 1 (.literal quote)
  | closeHeredoc {label : List UInt8} {size : Nat} (hlast : last.all isLineEnd = true)
      (h : closer? label (b :: tail) = some size) : Moves last b tail (.heredoc label) size .code
  | inHeredoc {label : List UInt8} (h : last.all isLineEnd = true → closer? label (b :: tail) = none) :
      Moves last b tail (.heredoc label) 1 (.heredoc label)

variable {o : Blanking} {state next : State} {last : Option UInt8} {b : UInt8} {tail : List UInt8}

/-- Each step of the scanner follows a rule. -/
theorem State.step_sound {r : Step} (h : state.step o last b tail = .ok r) :
    Moves last b tail state r.taken r.next := by
  cases state with
  | markup =>
      simp only [step] at h
      split at h <;> rename_i hopen <;> cases h
      · exact .openTag hopen
      · exact .text (Bool.eq_false_iff.mpr hopen)
  | code =>
      simp only [step] at h
      split at h
      · rename_i hclose
        cases h
        exact .closeTag hclose
      rename_i hclose
      have hclose := Bool.eq_false_iff.mpr hclose
      split at h
      · rename_i hline
        cases h
        exact .openLineComment hclose hline
      rename_i hline
      have hline : opensLineComment b tail = false := Bool.eq_false_iff.mpr hline
      split at h
      · rename_i hblock
        cases h
        exact .openBlockComment hclose hline hblock
      rename_i hblock
      have hmark : NoMark b tail := ⟨hclose, hline, Bool.eq_false_iff.mpr hblock⟩
      split at h
      · rename_i opener hopener
        split at h <;> rename_i hsize <;> cases h
        exact .openHeredoc hmark hopener hsize
      · rename_i hopener
        cases h
        cases hquote : isQuote b with
        | true => exact .openLiteral hmark hopener hquote
        | false => exact .plain hmark hopener hquote
  | lineComment =>
      simp only [step] at h
      split at h
      · rename_i hend
        cases h
        exact .endLine hend
      rename_i hend
      have hend := Bool.eq_false_iff.mpr hend
      split at h <;> rename_i hclose <;> cases h
      · exact .leaveLine hend hclose
      · exact .inLine hend (Bool.eq_false_iff.mpr hclose)
  | blockComment =>
      simp only [step] at h
      split at h <;> rename_i hclose <;> cases h
      · exact .closeBlock hclose
      · exact .inBlock (Bool.eq_false_iff.mpr hclose)
  | literal quote =>
      simp only [step] at h
      split at h <;> rename_i hescape <;> cases h
      · exact .escape hescape
      · have hescape := Bool.eq_false_iff.mpr hescape
        cases hquote : b == quote with
        | true => exact .closeLiteral hescape hquote
        | false => exact .inLiteral hescape hquote
  | heredoc label =>
      simp only [step] at h
      split at h <;> rename_i hcloser <;> cases h
      · obtain ⟨hlast, hcloser⟩ := Option.ite_none_right_eq_some.mp hcloser
        exact .closeHeredoc hlast hcloser
      · refine .inHeredoc fun hlast => ?_
        rwa [if_pos hlast] at hcloser

theorem map_shown_false (text : List UInt8) : text.map (shown false) = text := by
  rw [List.map_congr_left fun b _ => show shown false b = b from rfl, List.map_id']

theorem take_of_isPrefixOf {start text : List UInt8} (h : start.isPrefixOf text = true) :
    text.take start.length = start :=
  List.prefix_iff_eq_take.mp (List.isPrefixOf_iff_prefix.mp h) |>.symm

/-- The scanner can follow each rule, and writes what it takes as bytes of one layer. -/
theorem State.step_complete {n : Nat} (h : Moves last b tail state n next) (o : Blanking) :
    state.step o last b tail = .ok
      ⟨((b :: tail).take n).map (shown (o.hides (state.layerTo next))), n, next⟩ := by
  cases h with
  | openTag h => simp only [step, h, ↓reduceIte, layerTo, Blanking.hides, map_shown_false]
  | text h => simp only [step, h]; rfl
  | closeTag h =>
      have htake : (b :: tail).take 2 = mark "?>" := take_of_isPrefixOf h
      simp only [step, h, ↓reduceIte, layerTo, Blanking.hides, map_shown_false, htake]
  | openLineComment hclose h => simp only [step, hclose, h]; rfl
  | openBlockComment hclose hline h =>
      have htake : (b :: tail).take 2 = mark "/*" := take_of_isPrefixOf h
      simp only [step, hclose, hline, h, htake]
      rfl
  | openHeredoc hmark h hsize =>
      simp only [step, hmark.closeTag, hmark.lineComment, hmark.blockComment, Bool.false_eq_true,
        ↓reduceIte, h, hsize, layerTo, Blanking.hides, map_shown_false]
  | openLiteral hmark hheredoc h =>
      simp only [step, hmark.closeTag, hmark.lineComment, hmark.blockComment, hheredoc, h]
      rfl
  | plain hmark hheredoc h =>
      simp only [step, hmark.closeTag, hmark.lineComment, hmark.blockComment, hheredoc, h]
      rfl
  | endLine h => simp only [step, h]; rfl
  | leaveLine hend h => simp only [step, hend, h]; rfl
  | inLine hend h => simp only [step, hend, h]; rfl
  | closeBlock h =>
      have htake : (b :: tail).take 2 = mark "*/" := take_of_isPrefixOf h
      simp only [step, h, htake]
      rfl
  | inBlock h => simp only [step, h]; rfl
  | escape h => simp only [step, h, ↓reduceIte, layerTo, Blanking.hides, map_shown_false]
  | closeLiteral hescape h => simp only [step, hescape, h]; rfl
  | inLiteral hescape h => simp only [step, hescape, h]; rfl
  | closeHeredoc hlast h =>
      simp only [step, hlast, ↓reduceIte, h, layerTo, Blanking.hides, map_shown_false]
  | @inHeredoc label h =>
      have hnone : (if last.all isLineEnd then closer? label (b :: tail) else none) = none := by
        split
        · rename_i hlast
          exact h hlast
        · rfl
      simp only [step, hnone]
      rfl

theorem Moves.unique {n' : Nat} {next' : State} (h : Moves last b tail state n next)
    (h' : Moves last b tail state n' next') : n = n' ∧ next = next' := by
  have hsame := Except.ok.inj ((State.step_complete h .all).symm.trans (State.step_complete h' .all))
  exact ⟨congrArg Step.taken hsame, congrArg Step.next hsame⟩

/-! ## Runs -/

/-- A place in a script: what the scanner is in the middle of, the byte before, and what lies ahead. -/
structure Place where
  state : State
  last : Option UInt8
  ahead : List UInt8

/-- The place after a step that takes `n` bytes. -/
def Place.after (p : Place) (n : Nat) (next : State) : Place :=
  ⟨next, (p.ahead.take n).getLast?.or p.last, p.ahead.drop n⟩

/-- The scanner gets from one place to another and gives the bytes between them these layers. -/
inductive Reads : Place → List (UInt8 × Layer) → Place → Prop
  | refl (p : Place) : Reads p [] p
  | step {state next : State} {last : Option UInt8} {b : UInt8} {tail : List UInt8} {n : Nat}
      {l : List (UInt8 × Layer)} {q : Place} (h : Moves last b tail state n next)
      (further : Reads (Place.after ⟨state, last, b :: tail⟩ n next) l q) :
      Reads ⟨state, last, b :: tail⟩ (((b :: tail).take n).map (·, state.layerTo next) ++ l) q

namespace Reads

variable {p q s : Place} {l m : List (UInt8 × Layer)}

theorem trans (h : Reads p l q) (h' : Reads q m s) : Reads p (l ++ m) s := by
  induction h with
  | refl => exact h'
  | step hmoves _ ih =>
      rw [List.append_assoc]
      exact step hmoves (ih h')

theorem ahead_eq (h : Reads p l q) : p.ahead = l.map Prod.fst ++ q.ahead := by
  induction h with
  | refl => rfl
  | @step _ _ _ b tail n l q _ _ ih =>
      have hdrop : (b :: tail).drop n = l.map Prod.fst ++ q.ahead := ih
      rw [List.map_append, List.map_map, List.append_assoc, ← hdrop]
      exact (List.take_append_drop n (b :: tail)).symm.trans (congrArg (· ++ _) (List.map_id _).symm)

theorem map_fst (h : Reads p l q) (hend : q.ahead = []) : l.map Prod.fst = p.ahead := by
  rw [h.ahead_eq, hend, List.append_nil]

/-- A reading to the end goes on with the step that can be taken. -/
theorem exists_behind {n : Nat} (h : Reads ⟨state, last, b :: tail⟩ l q) (hend : q.ahead = [])
    (hmoves : Moves last b tail state n next) :
    ∃ l', l = ((b :: tail).take n).map (·, state.layerTo next) ++ l' ∧
      Reads (Place.after ⟨state, last, b :: tail⟩ n next) l' q := by
  cases h with
  | refl => cases hend
  | step hmoves' further =>
      obtain ⟨rfl, rfl⟩ := hmoves.unique hmoves'
      exact ⟨_, rfl, further⟩

/-- The scanner writes what it reads. -/
theorem scanFrom_eq (h : Reads p l q) (o : Blanking) (out : List UInt8) :
    scanFrom o p.state p.last p.ahead out =
      scanFrom o q.state q.last q.ahead ((l.map o.write).reverse ++ out) := by
  induction h generalizing out with
  | refl => rfl
  | step hmoves _ ih =>
      have hstep := State.step_complete hmoves o
      rw [scanFrom]
      split
      · rename_i herror
        cases hstep.symm.trans herror
      · rename_i hok
        cases hstep.symm.trans hok
        rw [List.map_append, List.reverse_append, List.append_assoc, List.map_map]
        exact ih _

end Reads

theorem exists_reads {text out written : List UInt8}
    (h : scanFrom o state last text out = .ok written) :
    ∃ l q, Reads ⟨state, last, text⟩ l q ∧ q.ahead = [] := by
  induction state, last, text, out using scanFrom.induct (o := o) with
  | case1 state last out => exact ⟨[], _, .refl _, rfl⟩
  | case2 state last out b tail fault herror =>
      rw [scanFrom, herror] at h
      cases h
  | case3 state last out b tail r hstep ih =>
      rw [scanFrom] at h
      split at h
      · cases h
      · rename_i hok
        cases hstep.symm.trans hok
        obtain ⟨l, q, hreads, hend⟩ := ih h
        exact ⟨_, q, .step (State.step_sound hstep) hreads, hend⟩

/-- The scanner succeeds if it can read to the end, and writes what it reads. -/
theorem scan_eq_ok_iff {text written : List UInt8} :
    scan o text = .ok written ↔
      ∃ l q, Reads ⟨.markup, none, text⟩ l q ∧ q.ahead = [] ∧ written = l.map o.write := by
  have hscan {l q} (hreads : Reads ⟨.markup, none, text⟩ l q) (hend : q.ahead = []) :
      scan o text = .ok (l.map o.write) := by
    rw [scan, hreads.scanFrom_eq o [], hend, scanFrom, List.append_nil, List.reverse_reverse]
  constructor
  · intro h
    obtain ⟨l, q, hreads, hend⟩ := exists_reads h
    exact ⟨l, q, hreads, hend, Except.ok.inj (h.symm.trans (hscan hreads hend))⟩
  · rintro ⟨l, q, hreads, hend, rfl⟩
    exact hscan hreads hend

theorem clean_eq_ok_iff {source cleaned : List Char} :
    clean o source = .ok cleaned ↔
      ∃ written, scan o (Utf8.encode source) = .ok written ∧ Utf8.decodeLossy written = cleaned := by
  rw [clean]
  cases scan o (Utf8.encode source) with
  | error fault =>
      constructor
      · intro h
        cases h
      · rintro ⟨_, h, _⟩
        cases h
  | ok written =>
      constructor
      · intro h
        exact ⟨written, rfl, Except.ok.inj h⟩
      · rintro ⟨_, hwritten, rfl⟩
        cases hwritten
        rfl

end ExtensionLint.Script
