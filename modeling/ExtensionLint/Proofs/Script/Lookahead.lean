import Mathlib.Data.List.Infix
import ExtensionLint.Proofs.Script.LineEnds

/-!
# Looking ahead in a cleaned script

Cleaning puts spaces for other bytes, so it can take away what the scanner looks for, but not bring it
(`isPrefixOf_map_write`). What the scanner needs to find again it has not hidden. The exception is the
mark of a heredoc: a word may follow it behind blanks, and hiding a block comment makes blanks
(`Reads.noLabel_code`).
-/

namespace ExtensionLint.Script

open Text Utf8

variable {o : Blanking} {state next : State} {last last' : Option UInt8} {b : UInt8}
  {tail : List UInt8} {n : Nat} {l : List (UInt8 × Layer)} {p q : Place}

/-! ## What is written -/

theorem eq_of_write_ne_space {x : UInt8 × Layer} (h : o.write x ≠ byte ' ') : o.write x = x.1 :=
  (write_eq o x).resolve_right fun hspace => h hspace.2

theorem isLineEnd_write (o : Blanking) (x : UInt8 × Layer) : isLineEnd (o.write x) = isLineEnd x.1 := by
  rcases write_eq o x with hkept | ⟨hend, hspace⟩
  · rw [hkept]
  · rw [hspace, hend]
    rfl

/-- What is written without spaces has stood there. -/
theorem map_fst_eq_of_map_write {f : UInt8 → UInt8} (hf : f (byte ' ') = byte ' ') {m : List UInt8}
    (hm : byte ' ' ∉ m) (h : (l.map o.write).map f = m) : (l.map Prod.fst).map f = m := by
  subst h
  rw [List.map_map, List.map_map]
  refine List.map_congr_left fun x hx => congrArg f (eq_of_write_ne_space fun hspace => hm ?_).symm
  rw [← hf, ← hspace]
  exact List.mem_map_of_mem (List.mem_map_of_mem hx)

theorem isPrefixOf_map_write {m : List UInt8} (hm : byte ' ' ∉ m)
    (h : m.isPrefixOf (l.map Prod.fst) = false) : m.isPrefixOf (l.map o.write) = false := by
  rw [Bool.eq_false_iff] at h ⊢
  refine fun hwritten => h ?_
  rw [List.isPrefixOf_iff_prefix, List.prefix_iff_eq_take, ← List.map_take] at hwritten ⊢
  have hid (bytes : List UInt8) : bytes.map id = bytes := List.map_id bytes
  rw [← hid (List.map _ _)] at hwritten ⊢
  exact (map_fst_eq_of_map_write rfl hm hwritten.symm).symm

theorem head?_any_map_write {kind : UInt8 → Bool} (hkind : kind (byte ' ') = false)
    (h : (l.map Prod.fst).head?.any kind = false) : (l.map o.write).head?.any kind = false := by
  cases l with
  | nil => rfl
  | cons x l =>
      have hx : kind x.1 = false := h
      change kind (o.write x) = false
      rcases write_eq o x with hkept | ⟨_, hspace⟩
      · rw [hkept, hx]
      · rw [hspace, hkind]

theorem openTagSize_map_write
    (h : (l.map o.write).take (openTagSize (l.map Prod.fst)) =
      (l.map Prod.fst).take (openTagSize (l.map Prod.fst))) :
    openTagSize (l.map o.write) = openTagSize (l.map Prod.fst) := by
  have hphp (hnot : ¬ ((l.map Prod.fst).take 5).map lowerByte = mark "<?php") :
      ¬ ((l.map o.write).take 5).map lowerByte = mark "<?php" := by
    intro hwritten
    rw [← List.map_take] at hnot hwritten
    exact hnot (map_fst_eq_of_map_write rfl (by decide) hwritten)
  by_cases hsource : ((l.map Prod.fst).take 5).map lowerByte = mark "<?php"
  · have hsize : openTagSize (l.map Prod.fst) = 5 := if_pos hsource
    rw [hsize] at h ⊢
    rw [← h] at hsource
    exact if_pos hsource
  cases hecho : (mark "<?=").isPrefixOf (l.map Prod.fst) with
  | true =>
      have hsize : openTagSize (l.map Prod.fst) = 3 := by
        rw [openTagSize, if_neg hsource, hecho, if_pos rfl]
      have htake : (l.map Prod.fst).take 3 = mark "<?=" := take_of_isPrefixOf hecho
      have hwritten : (mark "<?=").isPrefixOf (l.map o.write) = true := by
        rw [List.isPrefixOf_iff_prefix, ← htake, ← hsize, ← h]
        exact List.take_prefix _ _
      rw [hsize, openTagSize, if_neg (hphp hsource), hwritten, if_pos rfl]
  | false =>
      rw [openTagSize, openTagSize, if_neg hsource, if_neg (hphp hsource), hecho,
        isPrefixOf_map_write (by decide) hecho]

/-! ## Looking ahead -/

/-- Outside of comments and markup. -/
def State.Shown (state : State) : Prop := state.layer = .code ∨ state.layer = .literal

theorem Moves.stays_shown (h : Moves last b tail state n next) (hs : state.Shown) (hb : b ∉ mark "/#?") :
    o.hides (state.layerTo next) = false ∧ next.Shown := by
  have hstart {pair : List UInt8} {c : UInt8} (hpair : (c :: pair).isPrefixOf (b :: tail) = true)
      (hc : c ∈ mark "/#?") : False := by
    rw [List.isPrefixOf_iff_prefix, List.cons_prefix_cons] at hpair
    exact hb (hpair.1 ▸ hc)
  cases h with
  | openTag | text | inLine | inBlock | endLine | leaveLine | closeBlock =>
      rcases hs with hs | hs <;> cases hs
  | closeTag h => exact (hstart h (by decide)).elim
  | openBlockComment _ _ h => exact (hstart h (by decide)).elim
  | openLineComment _ h =>
      rw [opensLineComment, Bool.or_eq_true, Bool.and_eq_true, beq_iff_eq] at h
      rcases h with h | ⟨rfl, _⟩
      · exact (hstart h (by decide)).elim
      · exact absurd (by decide) hb
  | _ => exact ⟨rfl, by simp [State.Shown, State.layer]⟩

/-- Outside of comments and markup, nothing is hidden before a mark comes. -/
theorem Reads.kept (h : Reads p l q) (hend : q.ahead = []) (hp : p.state.Shown) (front : List UInt8)
    (hahead : front <+: p.ahead) (hfront : front.all (· ∉ mark "/#?") = true) (o : Blanking) :
    front <+: l.map o.write := by
  induction h generalizing front with
  | refl p =>
      rw [hend] at hahead
      exact hahead
  | @step state next last b tail n l q hmoves further ih =>
      cases front with
      | nil => exact List.nil_prefix
      | cons c front =>
          obtain ⟨rfl, hfurther⟩ := List.cons_prefix_cons.mp hahead
          have hfront := List.all_iff_forall_prop.mp hfront
          obtain ⟨hhides, hnext⟩ := hmoves.stays_shown (o := o) hp (hfront _ List.mem_cons_self)
          rw [List.map_append, map_write, hhides, map_shown_false]
          obtain ⟨behind, hbehind⟩ := hahead
          dsimp only at hbehind
          rw [← List.take_append_drop n (c :: tail)] at hbehind
          rcases List.append_eq_append_iff.mp hbehind with ⟨back, htaken, _⟩ | ⟨front', hsplit, hrest⟩
          · rw [htaken, List.append_assoc]
            exact List.prefix_append _ _
          · rw [hsplit]
            refine List.prefix_append_right_inj _ |>.mpr (ih hend hnext front' ⟨behind, hrest.symm⟩ ?_)
            exact List.all_iff_forall_prop.mpr fun x hx => hfront x (hsplit ▸ List.mem_append_right _ hx)

/-! ## Openers -/

/-- No label of an opener begins here, in quotes or not. -/
def NoLabel (text : List UInt8) : Prop :=
  (text.drop (quotingSize text)).head?.any isLabelByte = false

theorem opener?_eq_none_iff {inner : List UInt8} :
    opener? (mark "<<<" ++ inner) = none ↔ NoLabel (inner.dropWhile isIndent) := by
  have hinner : (mark "<<<").isPrefixOf? (mark "<<<" ++ inner) = some inner :=
    List.isPrefixOf?_eq_some_iff_append_eq.mpr rfl
  have hlabel (text : List UInt8) :
      (text.takeWhile isLabelByte).isEmpty = !text.head?.any isLabelByte := by
    cases text with
    | nil => rfl
    | cons c text => cases hc : isLabelByte c <;> simp [hc]
  rw [opener?_eq_bind, hinner, Option.bind_some, NoLabel]
  dsimp only
  rw [hlabel]
  cases ((inner.dropWhile isIndent).drop (quotingSize (inner.dropWhile isIndent))).head?.any
    isLabelByte <;> simp

theorem noLabel_cons_iff {c : UInt8} (hc : c ∉ mark "'\"") {text : List UInt8} :
    NoLabel (c :: text) ↔ isLabelByte c = false := by
  have hquote : (c == byte '\'' || c == byte '"') = false := by
    rw [Bool.or_eq_false_iff, beq_eq_false_iff_ne, beq_eq_false_iff_ne]
    exact ⟨fun h => hc (h ▸ by decide), fun h => hc (h ▸ by decide)⟩
  have hsize : quotingSize (c :: text) = 0 := by
    simp only [quotingSize, List.head?_cons, Option.any_some, hquote, Bool.false_eq_true, ↓reduceIte]
  rw [NoLabel, hsize]
  exact Iff.rfl

/-- Nor behind blanks. -/
theorem noLabel_dropWhile {c : UInt8} (hc : c ∉ mark " \t'\"") (hlabel : isLabelByte c = false)
    (text : List UInt8) : NoLabel ((c :: text).dropWhile isIndent) := by
  have hindent : ¬ isIndent c = true := by
    rw [isIndent, Bool.or_eq_true, beq_iff_eq, beq_iff_eq]
    rintro (rfl | rfl) <;> exact hc (by decide)
  rw [List.dropWhile_cons_of_neg hindent]
  exact (noLabel_cons_iff fun h => hc (List.mem_append_right (mark " \t") h)).mpr hlabel

/-- A hidden line comment leaves blanks, and what ends it begins no label. -/
theorem Reads.noLabel_lineComment (ho : o.comments = true) (h : Reads p l q) (hend : q.ahead = [])
    (hp : p.state = .lineComment) : NoLabel ((l.map o.write).dropWhile isIndent) := by
  induction h with
  | refl p => rfl
  | @step state next last b tail n l q hmoves further ih =>
      obtain rfl : state = .lineComment := hp
      cases hmoves with
      | endLine hb =>
          simp only [isLineEnd, Bool.or_eq_true, beq_iff_eq] at hb
          rcases hb with rfl | rfl
          · exact noLabel_dropWhile (c := byte '\n') (by decide) rfl _
          · exact noLabel_dropWhile (c := byte '\r') (by decide) rfl _
      | leaveLine _ hclose =>
          obtain ⟨l', rfl, _⟩ := further.exists_behind hend (.closeTag hclose)
          have htake : (b :: tail).take 2 = mark "?>" := take_of_isPrefixOf hclose
          rw [htake]
          exact noLabel_dropWhile (c := byte '?') (by decide) rfl _
      | inLine hb _ =>
          have hhidden : o.write (b, .comment) = byte ' ' := by
            simp [Blanking.write, Blanking.hides, ho, shown, hb]
          change NoLabel ((o.write (b, .comment) :: l.map o.write).dropWhile isIndent)
          rw [hhidden]
          exact ih hend rfl

/-- Where no label stands in code behind blanks, none is written, unless by hiding a block comment. -/
theorem Reads.noLabel_code (h : Reads p l q) (hend : q.ahead = []) (hp : p.state = .code)
    (hcomment : (mark "/*").isPrefixOf (p.ahead.dropWhile isIndent) = false)
    (hlabel : NoLabel (p.ahead.dropWhile isIndent)) (o : Blanking) :
    NoLabel ((l.map o.write).dropWhile isIndent) := by
  induction h with
  | refl p => rfl
  | @step state next last b tail n l q hmoves further ih =>
      obtain rfl : state = .code := hp
      dsimp only at hcomment hlabel
      by_cases hindent : isIndent b = true
      · have hsign : isQuote b = false ∧ b ∉ mark "#/?<" := by
          rw [isIndent, Bool.or_eq_true, beq_iff_eq, beq_iff_eq] at hindent
          rcases hindent with rfl | rfl <;> decide
        obtain ⟨hmark, hopener⟩ := not_mem_of_plain hsign.2
        obtain ⟨rfl, rfl⟩ := hmoves.unique
          (.plain (noMark_of_not_mem hmark) (opener?_cons_of_ne hopener) hsign.1)
        rw [List.dropWhile_cons_of_pos hindent] at hcomment hlabel
        change NoLabel ((b :: l.map o.write).dropWhile isIndent)
        rw [List.dropWhile_cons_of_pos hindent]
        exact ih hend rfl hcomment hlabel
      · rw [List.dropWhile_cons_of_neg hindent] at hcomment hlabel
        cases hmoves with
        | closeTag hclose =>
            have htake : (b :: tail).take 2 = mark "?>" := take_of_isPrefixOf hclose
            rw [htake]
            exact noLabel_dropWhile (c := byte '?') (by decide) rfl _
        | openLineComment hclose hline =>
            cases ho : o.comments with
            | true => exact further.noLabel_lineComment ho hend rfl
            | false =>
                have hb := mem_of_opensLineComment hline
                have hline : isLineEnd b = false := by rcases hb with rfl | rfl <;> rfl
                obtain ⟨l', rfl, _⟩ := further.exists_behind hend (.inLine hline hclose)
                have hshown : o.write (b, .comment) = b := by
                  simp [Blanking.write, Blanking.hides, ho, shown]
                change NoLabel ((o.write (b, .comment) :: l'.map o.write).dropWhile isIndent)
                rw [hshown]
                rcases hb with rfl | rfl <;> exact noLabel_dropWhile (by decide) rfl _
        | openBlockComment _ _ hblock =>
            rw [hblock] at hcomment
            cases hcomment
        | openHeredoc hmark hopener hsize =>
            have hb : b = byte '<' := by
              by_contra hne
              rw [opener?_cons_of_ne hne] at hopener
              cases hopener
            subst hb
            have hwhole := Reads.step (.openHeredoc hmark hopener hsize) further
            obtain ⟨behind, hbehind⟩ := hwhole.kept hend (.inl rfl) (mark "<") ⟨tail, rfl⟩ rfl o
            rw [← hbehind]
            exact noLabel_dropWhile (c := byte '<') (by decide) rfl _
        | openLiteral _ _ hquote =>
            have htail : l.map Prod.fst = tail := further.map_fst hend
            rw [← htail] at hlabel
            rcases isQuote_eq hquote with rfl | rfl | rfl
            · exact head?_any_map_write rfl hlabel
            · exact head?_any_map_write rfl hlabel
            · exact noLabel_dropWhile (c := byte '`') (by decide) rfl _
        | plain _ _ hquote =>
            have hquotes : ∀ c ∈ mark "'\"", isQuote c = true := List.all_iff_forall_prop.mp (by decide)
            have hb : b ∉ mark "'\"" := fun hmem => Bool.eq_false_iff.mp hquote (hquotes b hmem)
            change NoLabel ((b :: l.map o.write).dropWhile isIndent)
            rw [List.dropWhile_cons_of_neg hindent]
            exact (noLabel_cons_iff hb).mpr ((noLabel_cons_iff hb).mp hlabel)

theorem opener?_eq_none_of_not_start {text : List UInt8}
    (h : (mark "<<<").isPrefixOf text = false) : opener? text = none := by
  rw [← List.isSome_isPrefixOf?_eq_isPrefixOf, Option.isSome_eq_false_iff,
    Option.isNone_iff_eq_none] at h
  rw [opener?_eq_bind, h, Option.bind_none]

theorem moves_bracket (last : Option UInt8) (h : opener? (byte '<' :: tail) = none) :
    Moves last (byte '<') tail .code 1 .code :=
  .plain (noMark_of_not_mem (by decide)) h rfl

/-- Where no heredoc begins in code, none begins in what is written, unless by hiding a block comment. -/
theorem Reads.opener?_map_write (h : Reads ⟨.code, last, tail⟩ l q) (hend : q.ahead = [])
    (hnone : opener? (byte '<' :: tail) = none)
    (hcomment : ∀ behind, byte '<' :: tail = mark "<<<" ++ behind →
      (mark "/*").isPrefixOf (behind.dropWhile isIndent) = false) (o : Blanking) :
    opener? (byte '<' :: l.map o.write) = none := by
  cases hstart : (mark "<<<").isPrefixOf (byte '<' :: tail) with
  | false =>
      have htail : l.map Prod.fst = tail := h.map_fst hend
      rw [← htail] at hstart
      have hwritten : (mark "<<<").isPrefixOf (((byte '<', .code) :: l).map o.write) = false :=
        isPrefixOf_map_write (by decide) hstart
      exact opener?_eq_none_of_not_start hwritten
  | true =>
      obtain ⟨behind, hbehind⟩ := List.isPrefixOf_iff_prefix.mp hstart
      rw [← hbehind, opener?_eq_none_iff] at hnone
      obtain rfl : byte '<' :: byte '<' :: behind = tail := (List.cons.inj hbehind).2
      by_cases hnext : ∃ rest, behind = byte '<' :: rest
      · obtain ⟨rest, rfl⟩ := hnext
        obtain ⟨further, hfurther⟩ :=
          h.kept hend (.inl rfl) (mark "<<<") ⟨rest, rfl⟩ rfl o
        rw [← hfurther]
        exact opener?_eq_none_iff.mpr (noLabel_dropWhile (c := byte '<') (by decide) rfl further)
      · -- no mark begins at the second and the third bracket, so they are taken one by one
        have hnot (sign : List UInt8) : (byte '<' :: sign).isPrefixOf behind = false := by
          cases behind with
          | nil => rfl
          | cons c rest => exact isPrefixOf_cons_of_ne fun hc => hnext ⟨rest, hc ▸ rfl⟩
        have hsecond : opener? (byte '<' :: byte '<' :: behind) = none :=
          opener?_eq_none_of_not_start (hnot [])
        have hthird : opener? (byte '<' :: behind) = none :=
          opener?_eq_none_of_not_start (hnot [byte '<'])
        obtain ⟨l₁, rfl, h₁⟩ := h.exists_behind hend (moves_bracket _ hsecond)
        obtain ⟨l₂, rfl, h₂⟩ := h₁.exists_behind hend (moves_bracket _ hthird)
        exact opener?_eq_none_iff.mpr (h₂.noLabel_code hend rfl (hcomment behind rfl) hnone o)

/-! ## Heredocs -/

theorem exists_split {front : List UInt8} (hsource : front <+: l.map Prod.fst)
    (hwritten : front <+: l.map o.write) :
    ∃ l' : List (UInt8 × Layer), l.map Prod.fst = front ++ l'.map Prod.fst ∧
      l.map o.write = front ++ l'.map o.write := by
  refine ⟨l.drop front.length, ?_, ?_⟩
  · rw [List.map_drop]
    exact List.prefix_append_drop hsource
  · rw [List.map_drop]
    exact List.prefix_append_drop hwritten

/-- In a heredoc the line is kept. -/
theorem Reads.kept_line {label : List UInt8} (h : Reads p l q) (hend : q.ahead = [])
    (hp : p.state = .heredoc label)
    (hnone : p.last.all isLineEnd = true → closer? label p.ahead = none) {content : List UInt8}
    (hahead : content <+: p.ahead) (hcontent : Inline content) (o : Blanking) :
    content <+: l.map o.write := by
  induction h generalizing content with
  | refl p =>
      rw [hend] at hahead
      exact hahead
  | @step state next last b tail n l q hmoves further ih =>
      obtain rfl : state = .heredoc label := hp
      cases content with
      | nil => exact List.nil_prefix
      | cons c content =>
          obtain ⟨rfl, hfurther⟩ := List.cons_prefix_cons.mp hahead
          obtain ⟨rfl, rfl⟩ := hmoves.unique (.inHeredoc hnone)
          obtain ⟨hc, hcontent⟩ := List.forall_mem_cons.mp hcontent
          change c :: content <+: c :: l.map o.write
          refine List.cons_prefix_cons.mpr ⟨rfl, ih hend rfl (fun hline => ?_) hfurther hcontent⟩
          cases hc.symm.trans hline

theorem closes_iff {label text : List UInt8} (hlabel : IsLabel label) :
    Closes label text ↔ closer? label text ≠ none := by
  rw [Option.ne_none_iff_exists']
  simp only [closer?_eq_some_iff hlabel]
  exact ⟨fun ⟨indent, behind, htext, hindent, hnext⟩ => ⟨_, indent, behind, htext, hindent, hnext, rfl⟩,
    fun ⟨_, indent, behind, htext, hindent, hnext, _⟩ => ⟨indent, behind, htext, hindent, hnext⟩⟩

/-- Whether a heredoc ends here, the line tells. -/
theorem closer?_append_eq_none_iff {label content rest : List UInt8} (hlabel : IsLabel label)
    (hrest : rest.head?.all isLineEnd = true) :
    closer? label (content ++ rest) = none ↔ ¬ Closes label content := by
  constructor
  · rintro hnone ⟨indent, behind, rfl, hindent, hnext⟩
    refine (closes_iff hlabel).mp ⟨indent, behind ++ rest, ?_, hindent, ?_⟩ hnone
    · simp only [List.append_assoc]
    · cases behind with
      | cons c behind => exact hnext
      | nil =>
          cases rest with
          | nil => rfl
          | cons c rest => exact isLabelByte_of_isLineEnd (by simpa using hrest)
  · intro hcontent
    cases rest with
    | nil =>
        rw [List.append_nil]
        exact not_not.mp fun hne => hcontent ((closes_iff hlabel).mpr hne)
    | cons c rest => exact closer?_line hlabel hcontent (by simpa using hrest)

theorem Reads.closer?_map_write {label : List UInt8} (h : Reads ⟨.heredoc label, last, tail⟩ l q)
    (hend : q.ahead = []) (hlabel : IsLabel label) (hnone : closer? label tail = none) (o : Blanking) :
    closer? label (l.map o.write) = none := by
  have hsource : l.map Prod.fst = tail := h.map_fst hend
  have hahead := List.takeWhile_prefix (fun b => !isLineEnd b) (l := tail)
  have hcontent : Inline (tail.takeWhile fun b => !isLineEnd b) := fun b hb => by
    simpa using List.all_eq_true.mp List.all_takeWhile b hb
  obtain ⟨l', hl', hwritten⟩ := exists_split (hsource ▸ hahead)
    (h.kept_line hend rfl (fun _ => hnone) hahead hcontent o)
  have hrest : (l'.map Prod.fst).head?.all isLineEnd = true := by
    have hdrop : l'.map Prod.fst = tail.dropWhile fun b => !isLineEnd b := by
      rw [hsource] at hl'
      exact List.append_cancel_left (hl'.symm.trans List.takeWhile_append_dropWhile.symm)
    have hhead := head?_dropWhile_any (fun b => !isLineEnd b) tail
    rw [← hdrop] at hhead
    cases hl : (l'.map Prod.fst).head? with
    | none => rfl
    | some c => simpa [hl] using hhead
  have hwrittenRest : (l'.map o.write).head?.all isLineEnd = true := by
    rw [← hrest, List.head?_map, List.head?_map]
    cases l'.head? with
    | none => rfl
    | some x => exact isLineEnd_write o x
  rw [hwritten, closer?_append_eq_none_iff hlabel hwrittenRest]
  rw [← hsource, hl', closer?_append_eq_none_iff hlabel hrest] at hnone
  exact hnone

end ExtensionLint.Script
