import ExtensionLint.Proofs.Script.Lookahead

/-!
# Cleaning a cleaned script

The scanner reads a cleaned script as it read the script, with hidden comments as blanks in code
(`Reads.exists_again`). So cleaning once more changes nothing (`clean_clean`).
-/

namespace ExtensionLint.Script

open Text Utf8

variable {o : Blanking} {state next : State} {last last' : Option UInt8} {b : UInt8}
  {tail : List UInt8} {n : Nat} {l : List (UInt8 × Layer)} {p q : Place}

/-! ## The steps once more -/

theorem two_le_openTagSize (text : List UInt8) : 2 ≤ openTagSize text := by
  unfold openTagSize
  split
  · decide
  · split <;> decide

/-- What a step takes and does not hide is written. -/
theorem Reads.exists_kept (whole : Reads ⟨state, last, b :: tail⟩ l q) (hend : q.ahead = [])
    (h : Moves last b tail state n next) (hhides : o.hides (state.layerTo next) = false)
    {front : List UInt8} (hfront : front <+: b :: tail) (hlength : front.length ≤ n) :
    ∃ l' : List (UInt8 × Layer), b :: tail = front ++ l'.map Prod.fst ∧
      l.map o.write = front ++ l'.map o.write := by
  have hsource : l.map Prod.fst = b :: tail := whole.map_fst hend
  rw [← hsource] at hfront ⊢
  refine exists_split hfront ?_
  obtain ⟨l', rfl, _⟩ := whole.exists_behind hend h
  have htake : front <+: (b :: tail).take n := by
    rw [hsource] at hfront
    exact List.prefix_take_iff.mpr ⟨hfront, hlength⟩
  rw [List.map_append, map_write, hhides, map_shown_false]
  exact htake.trans (List.prefix_append _ _)

theorem Reads.openTagSize_map_write (whole : Reads ⟨.markup, last, b :: tail⟩ l q)
    (hend : q.ahead = []) (hopen : (mark "<?").isPrefixOf (b :: tail) = true) (o : Blanking) :
    openTagSize (l.map o.write) = openTagSize (b :: tail) := by
  have hsource : l.map Prod.fst = b :: tail := whole.map_fst hend
  obtain ⟨l', _, hwritten⟩ := whole.exists_kept (o := o) hend (.openTag hopen) rfl (List.take_prefix _ _)
    (List.length_take_le _ _)
  have hlength : ((b :: tail).take (openTagSize (b :: tail))).length = openTagSize (b :: tail) :=
    List.length_take_of_le (openTagSize_le hopen)
  rw [← hsource] at hwritten hlength ⊢
  apply Script.openTagSize_map_write
  rw [hwritten, List.take_append_of_le_length (Nat.le_of_eq hlength.symm), List.take_take, Nat.min_self]

theorem Reads.opener?_map_write_some (whole : Reads ⟨.code, last, b :: tail⟩ l q)
    (hend : q.ahead = []) {opener : Opener} (hmark : NoMark b tail)
    (hopener : opener? (b :: tail) = some opener) (hsize : opener.size ≤ (b :: tail).length)
    (o : Blanking) : opener? (l.map o.write) = some opener := by
  obtain ⟨indent, quote, behind, htext, hindent, hquote, hlabel, hnext, hsum⟩ :=
    opener?_eq_some_iff.mp hopener
  have hfront : b :: tail = (mark "<<<" ++ (indent ++ (quote ++ opener.label))) ++ behind := by
    rw [htext]
    simp only [List.append_assoc]
  obtain ⟨l', hl', hwritten⟩ := whole.exists_kept (o := o) hend (.openHeredoc hmark hopener hsize) rfl
    ⟨behind, hfront.symm⟩ (by
      have hthree : (mark "<<<").length = 3 := rfl
      simp only [List.length_append]
      omega)
  rw [hfront] at hl'
  rw [List.append_cancel_left hl'] at hnext
  refine opener?_eq_some_iff.mpr ⟨indent, quote, l'.map o.write, ?_, hindent, hquote, hlabel,
    head?_any_map_write rfl hnext, hsum⟩
  rw [hwritten]
  simp only [List.append_assoc]

theorem Reads.closer?_map_write_some {label : List UInt8}
    (whole : Reads ⟨.heredoc label, last, b :: tail⟩ l q) (hend : q.ahead = []) {size : Nat}
    (hlabel : IsLabel label) (hlast : last.all isLineEnd = true)
    (h : closer? label (b :: tail) = some size) (o : Blanking) :
    closer? label (l.map o.write) = some size := by
  obtain ⟨indent, behind, htext, hindent, hnext, hsum⟩ := (closer?_eq_some_iff hlabel).mp h
  rw [← List.append_assoc] at htext
  obtain ⟨l', hl', hwritten⟩ := whole.exists_kept (o := o) hend (.closeHeredoc hlast h) rfl
    ⟨behind, htext.symm⟩ (by rw [List.length_append, hsum])
  rw [htext] at hl'
  rw [List.append_cancel_left hl'] at hnext
  refine (closer?_eq_some_iff hlabel).mpr ⟨indent, l'.map o.write, ?_, hindent,
    head?_any_map_write rfl hnext, hsum⟩
  rw [hwritten, List.append_assoc]

/-- A line comment that is not hidden begins again. -/
theorem Reads.opensLineComment_map_write (whole : Reads ⟨.lineComment, last, b :: tail⟩ l q)
    (hend : q.ahead = []) (ho : o.comments = false)
    (hclose : (mark "?>").isPrefixOf (b :: tail) = false) (h : opensLineComment b tail = true) :
    ∃ tail', l.map o.write = b :: tail' ∧ opensLineComment b tail' = true := by
  have hwrite (c : UInt8) : o.write (c, .comment) = c := by
    simp [Blanking.write, Blanking.hides, ho, shown]
  have hend' : isLineEnd b = false := by rcases mem_of_opensLineComment h with rfl | rfl <;> rfl
  obtain ⟨l₁, rfl, h₁⟩ := whole.exists_behind hend (.inLine hend' hclose)
  refine ⟨l₁.map o.write, congrArg (· :: _) (hwrite b), ?_⟩
  rw [opensLineComment, Bool.or_eq_true] at h ⊢
  refine h.imp (fun hslashes => ?_) fun hhash => ?_
  · obtain ⟨rest, hrest⟩ := List.isPrefixOf_iff_prefix.mp hslashes
    obtain ⟨rfl, rfl⟩ := List.cons.inj hrest
    obtain ⟨l₂, rfl, _⟩ := h₁.exists_behind hend (.inLine rfl (isPrefixOf_cons_of_ne (by decide)))
    change (mark "//").isPrefixOf (byte '/' :: o.write (byte '/', .comment) :: _) = true
    rw [hwrite]
    rfl
  · have htail : l₁.map Prod.fst = tail := h₁.map_fst hend
    rw [Bool.and_eq_true, head?_bne, Bool.not_eq_true', ← htail] at hhash
    rw [Bool.and_eq_true, head?_bne, Bool.not_eq_true']
    exact ⟨hhash.1, head?_any_map_write rfl hhash.2⟩

/-- And where none begins, none is written. -/
theorem Reads.opensLineComment_map_write_eq_false (further : Reads ⟨.code, last, tail⟩ l q)
    (hend : q.ahead = []) (h : opensLineComment b tail = false) (o : Blanking) :
    opensLineComment b (l.map o.write) = false := by
  have htail : l.map Prod.fst = tail := further.map_fst hend
  rw [opensLineComment, Bool.or_eq_false_iff] at h ⊢
  obtain ⟨hslashes, hhash⟩ := h
  constructor
  · rw [← htail] at hslashes
    exact isPrefixOf_map_write (l := (b, .code) :: l) (by decide) hslashes
  · rw [Bool.and_eq_false_iff] at hhash ⊢
    refine hhash.imp_right fun hbracket => ?_
    rw [bne_eq_false_iff_eq] at hbracket ⊢
    obtain ⟨rest, rfl⟩ := List.head?_eq_some_iff.mp hbracket
    obtain ⟨behind, hbehind⟩ := further.kept hend (.inl rfl) (mark "[") ⟨rest, rfl⟩ rfl o
    rw [← hbehind]
    rfl

/-- A step that does not hide a comment is taken again. -/
theorem Moves.rewritten (hs : state.Proper) (h : Moves last b tail state n next)
    (whole : Reads ⟨state, last, b :: tail⟩ l q) (hend : q.ahead = [])
    (hlast : last'.all isLineEnd = last.all isLineEnd)
    (hclear : ∀ behind, b :: tail = mark "<<<" ++ behind →
      (mark "/*").isPrefixOf (behind.dropWhile isIndent) = false)
    (hshown : o.comments = true → state.layer ≠ .comment ∧ next.layer ≠ .comment) :
    ∃ b' tail', l.map o.write = b' :: tail' ∧ Moves last' b' tail' state n next := by
  have hsource : l.map Prod.fst = b :: tail := whole.map_fst hend
  have hnot {m : List UInt8} (hm : byte ' ' ∉ m) (hstart : m.isPrefixOf (b :: tail) = false) :
      m.isPrefixOf (l.map o.write) = false :=
    isPrefixOf_map_write hm (hsource ▸ hstart)
  have hcons : ∃ b' tail', l.map o.write = b' :: tail' ∧ tail'.length = tail.length := by
    cases l with
    | nil => cases hsource
    | cons x l =>
        refine ⟨_, _, rfl, ?_⟩
        rw [← (List.cons.inj hsource).2, List.length_map, List.length_map]
  obtain ⟨b', tail', hwritten, hlength⟩ := hcons
  rw [hwritten] at hnot
  have hempty : tail'.isEmpty = tail.isEmpty := by
    rw [Bool.eq_iff_iff, List.isEmpty_iff_length_eq_zero, List.isEmpty_iff_length_eq_zero, hlength]
  refine ⟨b', tail', hwritten, ?_⟩
  have hfront (hhides : o.hides (state.layerTo next) = false) (front : List UInt8)
      (hfront : front.isPrefixOf (b :: tail) = true) (hlength : front.length ≤ n) :
      ∃ rest, b' :: tail' = front ++ rest := by
    obtain ⟨l', _, hl'⟩ := whole.exists_kept hend h hhides (List.isPrefixOf_iff_prefix.mp hfront) hlength
    exact ⟨_, hwritten.symm.trans hl'⟩
  have hsame (hhides : o.hides (state.layerTo next) = false) (hn : 0 < n) : b' = b := by
    obtain ⟨rest, hrest⟩ := hfront hhides [b] (by simp) hn
    exact (List.cons.inj hrest).1
  have hcomment (h : state.layer = .comment ∨ next.layer = .comment) : o.comments = false := by
    rw [Bool.eq_false_iff]
    intro ho
    rcases h with h | h
    · exact (hshown ho).1 h
    · exact (hshown ho).2 h
  cases h with
  | openTag h =>
      have hsize := whole.openTagSize_map_write hend h o
      obtain ⟨rest, hrest⟩ := hfront rfl _ h (two_le_openTagSize _)
      rw [hwritten] at hsize
      rw [← hsize]
      exact .openTag (by rw [hrest]; rfl)
  | text h => exact .text (hnot (by decide) h)
  | closeTag h =>
      obtain ⟨rest, hrest⟩ := hfront rfl _ h (Nat.le_refl 2)
      exact .closeTag (by rw [hrest]; rfl)
  | openLineComment hclose h =>
      obtain ⟨_, rfl, further⟩ := whole.exists_behind hend (.openLineComment hclose h)
      obtain ⟨_, hcomments, hopens⟩ :=
        further.opensLineComment_map_write hend (hcomment (.inr rfl)) hclose h
      obtain ⟨rfl, rfl⟩ := List.cons.inj (hwritten.symm.trans hcomments)
      exact .openLineComment (hnot (by decide) hclose) hopens
  | openBlockComment hclose hline h =>
      obtain ⟨rest, hrest⟩ := hfront (hcomment (.inr rfl)) _ h (Nat.le_refl 2)
      obtain ⟨rfl, rfl⟩ := List.cons.inj hrest
      exact .openBlockComment rfl rfl rfl
  | openHeredoc hmark h hsize =>
      obtain rfl := hsame rfl (opener?_size_pos h)
      have hb : b' = byte '<' := by
        by_contra hne
        rw [opener?_cons_of_ne hne] at h
        cases h
      have hopener := whole.opener?_map_write_some hend hmark h hsize o
      rw [hwritten] at hopener
      refine .openHeredoc (noMark_of_not_mem (by rw [hb]; decide)) hopener ?_
      rw [List.length_cons, hlength]
      exact hsize
  | openLiteral hmark hheredoc h =>
      obtain rfl := hsame rfl Nat.one_pos
      rcases isQuote_eq h with rfl | rfl | rfl <;>
        exact .openLiteral (noMark_of_not_mem (by decide)) (opener?_cons_of_ne (by decide)) rfl
  | plain hmark hheredoc h =>
      obtain rfl := hsame rfl Nat.one_pos
      obtain ⟨l', rfl, further⟩ := whole.exists_behind hend (.plain hmark hheredoc h)
      obtain rfl : l'.map o.write = tail' := (List.cons.inj hwritten).2
      refine .plain ⟨hnot (by decide) hmark.closeTag, ?_, hnot (by decide) hmark.blockComment⟩ ?_ h
      · exact further.opensLineComment_map_write_eq_false hend hmark.lineComment o
      · by_cases hb : b' = byte '<'
        · subst hb
          exact further.opener?_map_write hend hheredoc hclear o
        · exact opener?_cons_of_ne hb
  | endLine h =>
      obtain rfl := hsame rfl Nat.one_pos
      exact .endLine h
  | leaveLine hline h =>
      obtain ⟨_, rfl, further⟩ := whole.exists_behind hend (.leaveLine hline h)
      obtain ⟨l', _, hl'⟩ := further.exists_kept (o := o) hend (.closeTag h) rfl
        (List.isPrefixOf_iff_prefix.mp h) (Nat.le_refl 2)
      obtain ⟨rfl, rfl⟩ := List.cons.inj (hwritten.symm.trans hl')
      exact .leaveLine rfl rfl
  | inLine hline h =>
      obtain rfl := hsame (hcomment (.inl rfl)) Nat.one_pos
      exact .inLine hline (hnot (by decide) h)
  | closeBlock h =>
      obtain ⟨rest, hrest⟩ := hfront (hcomment (.inl rfl)) _ h (Nat.le_refl 2)
      exact .closeBlock (by rw [hrest]; rfl)
  | inBlock h => exact .inBlock (hnot (by decide) h)
  | escape h =>
      obtain rfl := hsame rfl Nat.two_pos
      exact .escape (by rwa [hempty])
  | closeLiteral hescape h =>
      obtain rfl := hsame rfl Nat.one_pos
      exact .closeLiteral (by rwa [hempty]) h
  | inLiteral hescape h =>
      obtain rfl := hsame rfl Nat.one_pos
      exact .inLiteral (by rwa [hempty]) h
  | closeHeredoc hline h =>
      have hcloser := whole.closer?_map_write_some hend hs hline h o
      rw [hwritten] at hcloser
      exact .closeHeredoc (hlast.trans hline) hcloser
  | inHeredoc h =>
      refine .inHeredoc fun hline => ?_
      rw [← hwritten]
      exact whole.closer?_map_write hend hs (h (hlast.symm.trans hline)) o

/-- The state at the same place of the cleaned script, where a hidden comment is code. -/
def State.again (o : Blanking) (state : State) : State :=
  if o.comments = true ∧ state.layer = .comment then .code else state

theorem State.again_eq_self (h : o.comments = true → state.layer ≠ .comment) :
    state.again o = state :=
  if_neg fun hhidden => h hhidden.1 hhidden.2

theorem Moves.again_eq_code (h : Moves last b tail state n next) (ho : o.comments = true)
    (hcomment : state.layer = .comment ∨ next.layer = .comment) :
    state.again o = .code ∧ next.again o = .code := by
  cases h with
  | openLineComment | openBlockComment | endLine | leaveLine | inLine | closeBlock | inBlock =>
      simp [State.again, State.layer, ho]
  | _ => rcases hcomment with hcomment | hcomment <;> cases hcomment

/-- What is written of a hidden comment: spaces and line ends. -/
def IsBlank (bytes : List UInt8) : Prop := ∀ b ∈ bytes, b = byte ' ' ∨ isLineEnd b = true

theorem isBlank_map_shown (bytes : List UInt8) : IsBlank (bytes.map (shown true)) := by
  refine List.forall_mem_map.mpr fun b _ => ?_
  cases hend : isLineEnd b with
  | true => exact .inr ((congrArg isLineEnd (shown_of_isLineEnd true hend)).trans hend)
  | false => exact .inl (by simp [shown, hend])

theorem Moves.isBlank (h : Moves last b tail state n next) (ho : o.comments = true)
    (hcomment : state.layer = .comment ∨ next.layer = .comment) :
    IsBlank (((b :: tail).take n).map (shown (o.hides (state.layerTo next)))) := by
  have hhides : o.hides .comment = true := ho
  cases h with
  | openLineComment => exact List.forall_mem_nil _
  | leaveLine => exact List.forall_mem_nil _
  | endLine hb => exact List.forall_mem_singleton.mpr (.inr hb)
  | openBlockComment | inLine | closeBlock | inBlock =>
      simp only [State.layerTo, hhides]
      exact isBlank_map_shown _
  | _ => rcases hcomment with hcomment | hcomment <;> cases hcomment

theorem reads_blank {bytes : List UInt8} (h : IsBlank bytes) (last : Option UInt8) (rest : List UInt8) :
    Reads ⟨.code, last, bytes ++ rest⟩ (bytes.map (·, .code))
      ⟨.code, bytes.getLast?.or last, rest⟩ := by
  refine reads_bytes .code last bytes rest fun front b back hbytes => ?_
  have hb := h b (by rw [hbytes]; simp)
  rw [isLineEnd, Bool.or_eq_true, beq_iff_eq, beq_iff_eq] at hb
  rcases hb with rfl | rfl | rfl <;>
    exact .plain (noMark_of_not_mem (by decide)) (opener?_cons_of_ne (by decide)) rfl

theorem map_write_code (o : Blanking) (bytes : List UInt8) :
    (bytes.map (·, Layer.code)).map o.write = bytes := by
  rw [map_write]
  exact map_shown_false bytes

theorem map_shown_map_shown (hidden : Bool) (bytes : List UInt8) :
    (bytes.map (shown hidden)).map (shown hidden) = bytes.map (shown hidden) := by
  rw [List.map_map]
  refine List.map_congr_left fun b _ => ?_
  cases hidden with
  | false => rfl
  | true =>
      cases hend : isLineEnd b with
      | true => simp [shown, hend]
      | false => simp [shown, hend]

theorem all_isLineEnd_last (hidden : Bool) (taken : List UInt8)
    (h : last'.all isLineEnd = last.all isLineEnd) :
    ((taken.map (shown hidden)).getLast?.or last').all isLineEnd =
      (taken.getLast?.or last).all isLineEnd := by
  rw [List.getLast?_map]
  cases taken.getLast? with
  | none => exact h
  | some c =>
      change isLineEnd (shown hidden c) = isLineEnd c
      cases hidden with
      | false => rfl
      | true => exact isLineEnd_write .all (c, .markup)

/-- No mark of a heredoc has a block comment behind it, with nothing but blanks between. -/
def NoCommentedMark (text : List UInt8) : Prop :=
  ∀ behind, mark "<<<" ++ behind <:+ text →
    (mark "/*").isPrefixOf (behind.dropWhile isIndent) = false

theorem noCommentedMark_iff {text : List UInt8} :
    NoCommentedMark text ↔ ∀ t ∈ text.tails, (mark "<<<").isPrefixOf t = true →
      (mark "/*").isPrefixOf ((t.drop 3).dropWhile isIndent) = false := by
  constructor
  · intro h t ht hmark
    obtain ⟨behind, rfl⟩ := List.isPrefixOf_iff_prefix.mp hmark
    exact h behind ((List.mem_tails _ _).mp ht)
  · intro h behind hbehind
    exact h _ ((List.mem_tails _ _).mpr hbehind) (List.isPrefixOf_iff_prefix.mpr ⟨behind, rfl⟩)

instance (text : List UInt8) : Decidable (NoCommentedMark text) :=
  decidable_of_iff _ noCommentedMark_iff.symm

/-- The scanner reads what has been written, and would write it again. -/
theorem Reads.exists_again (h : Reads p l q) (hend : q.ahead = []) (hs : p.state.Proper)
    (hmarks : NoCommentedMark p.ahead) (hlast : last'.all isLineEnd = p.last.all isLineEnd)
    (o : Blanking) :
    ∃ l' q', Reads ⟨p.state.again o, last', l.map o.write⟩ l' q' ∧ q'.ahead = [] ∧
      l'.map o.write = l.map o.write := by
  induction h generalizing last' with
  | refl p => exact ⟨[], _, .refl _, rfl, rfl⟩
  | @step state next last b tail n l q hmoves further ih =>
      have hrest : NoCommentedMark ((b :: tail).drop n) := fun behind hbehind =>
        hmarks behind (hbehind.trans (List.drop_suffix _ _))
      obtain ⟨l', q', hreads, hend', hwritten⟩ := ih hend (hs.of_moves hmoves) hrest
        (all_isLineEnd_last (o.hides (state.layerTo next)) ((b :: tail).take n) hlast)
      by_cases hhidden : o.comments = true ∧ (state.layer = .comment ∨ next.layer = .comment)
      · -- a hidden comment has become blanks in code
        obtain ⟨hstate, hnext⟩ := hmoves.again_eq_code hhidden.1 hhidden.2
        change Reads ⟨next.again o, _, _⟩ l' q' at hreads
        rw [hnext] at hreads
        dsimp only
        rw [hstate, List.map_append, map_write]
        refine ⟨_, q', (reads_blank (hmoves.isBlank hhidden.1 hhidden.2) _ _).trans hreads, hend', ?_⟩
        rw [List.map_append, map_write_code, hwritten]
      · have hshown : o.comments = true → state.layer ≠ .comment ∧ next.layer ≠ .comment :=
          fun ho => not_or.mp fun hcomment => hhidden ⟨ho, hcomment⟩
        obtain ⟨b', tail', hcons, hmoves'⟩ := hmoves.rewritten hs (.step hmoves further) hend hlast
          (fun behind hbehind => hmarks behind ⟨[], hbehind.symm⟩) hshown
        change Reads ⟨next.again o, _, _⟩ l' q' at hreads
        rw [State.again_eq_self fun ho => (hshown ho).2] at hreads
        dsimp only
        rw [State.again_eq_self fun ho => (hshown ho).1]
        rw [List.map_append, map_write] at hcons ⊢
        have hlength : (((b :: tail).take n).map (shown (o.hides (state.layerTo next)))).length = n := by
          rw [List.length_map]
          exact List.length_take_of_le (hmoves.taken_le hs)
        rw [← hlength] at hmoves'
        refine ⟨_, q', (Reads.one _ _ hcons hmoves').trans hreads, hend', ?_⟩
        rw [List.map_append, map_write, map_shown_map_shown, hwritten]

/-- Cleaning once more changes nothing. -/
theorem clean_clean {source cleaned : List Char} (hmarks : NoCommentedMark (encode source))
    (h : clean o source = .ok cleaned) : clean o cleaned = .ok cleaned := by
  obtain ⟨written, hscan, rfl⟩ := clean_eq_ok_iff.mp h
  have hencode := encode_decodeLossy_scan hscan
  obtain ⟨l, q, hreads, hend, rfl⟩ := scan_eq_ok_iff.mp hscan
  obtain ⟨l', q', hreads', hend', hwritten⟩ := hreads.exists_again hend trivial hmarks rfl o
  have hmarkup : State.markup.again o = .markup := State.again_eq_self fun _ => by decide
  dsimp only at hreads'
  rw [hmarkup] at hreads'
  rw [clean_eq_ok_iff, hencode]
  exact ⟨_, scan_eq_ok_iff.mpr ⟨l', q', hreads', hend', hwritten.symm⟩, rfl⟩

theorem clean_clean_line_comment_behind_mark :
    NoCommentedMark (encode "é<?php <<<#a\n?>b".toList) ∧
      clean .all "é<?php <<<#a\n?>b".toList = .ok "  <?php <<<  \n?> ".toList ∧
      clean .all "  <?php <<<  \n?> ".toList = .ok "  <?php <<<  \n?> ".toList := by
  have hmarks : NoCommentedMark (encode "é<?php <<<#a\n?>b".toList) := by decide
  have hreads : Reads ⟨.markup, none, encode "é<?php <<<#a\n?>b".toList⟩
      ((encode "é".toList).map (·, .markup) ++ (mark "<?php <<<").map (·, .code) ++
        (mark "#a").map (·, .comment) ++ (mark "\n?>").map (·, .code) ++ [(byte 'b', .markup)])
      ⟨.markup, some (byte 'b'), []⟩ :=
    .step (b := 0xC3) (.text rfl) <|
    .step (b := 0xA9) (.text rfl) <|
    .step (b := byte '<') (.openTag rfl) <|
    .step (b := byte ' ') (.plain ⟨rfl, rfl, rfl⟩ rfl rfl) <|
    .step (b := byte '<') (.plain ⟨rfl, rfl, rfl⟩ rfl rfl) <|
    .step (b := byte '<') (.plain ⟨rfl, rfl, rfl⟩ rfl rfl) <|
    .step (b := byte '<') (.plain ⟨rfl, rfl, rfl⟩ rfl rfl) <|
    .still (b := byte '#') (.openLineComment rfl rfl) <|
    .step (b := byte '#') (.inLine rfl rfl) <|
    .step (b := byte 'a') (.inLine rfl rfl) <|
    .step (b := byte '\n') (.endLine rfl) <|
    .step (b := byte '?') (.closeTag rfl) <|
    .step (b := byte 'b') (.text rfl) (.refl _)
  have hscan : scan .all (encode "é<?php <<<#a\n?>b".toList) =
      .ok (encode "  <?php <<<  \n?> ".toList) :=
    scan_eq_ok_iff.mpr ⟨_, _, hreads, rfl, rfl⟩
  have hclean : clean .all "é<?php <<<#a\n?>b".toList = .ok "  <?php <<<  \n?> ".toList :=
    clean_eq_ok_iff.mpr ⟨_, hscan, decodeLossy_encode _⟩
  exact ⟨hmarks, hclean, clean_clean hmarks hclean⟩

end ExtensionLint.Script
