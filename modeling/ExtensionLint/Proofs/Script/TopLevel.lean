import ExtensionLint.Proofs.Script.Declarations
import ExtensionLint.Proofs.Script.Lexing

/-!
# What runs at top level

A script is read twice before it counts as one that only declares: the scanner finds its comments, then
a reader of braces finds its declarations. The two know the same quoted literals. Where all else that
the scanner knows looks plain to a reader of braces (`Lucid`), they agree on what stands at top level
(`topLevel_eq_outsideBy`), and a script that only declares runs nothing there
(`isDeclarationOnly_topLevel`). In general they do not agree (`isDeclarationOnly_call_between_backticks`).
-/

namespace ExtensionLint.Script

open Text Utf8

/-! ## Top level -/

/-- The number of open braces behind a byte. Braces count in code only. -/
def depthAfter (depth : Nat) (x : UInt8 × Layer) : Nat :=
  if x.2 = .code then
    if x.1 = byte '{' then depth + 1 else if x.1 = byte '}' then depth - 1 else depth
  else depth

/-- What a reading has outside all braces, the outermost braces among it, with spaces for comments. -/
def topLevel : Nat → List (UInt8 × Layer) → List UInt8
  | _, [] => []
  | depth, x :: l =>
    if depth = 0 ∨ depthAfter depth x = 0 then
      Blanking.commentsOnly.write x :: topLevel (depthAfter depth x) l
    else topLevel (depthAfter depth x) l

theorem topLevel_append (depth : Nat) (l m : List (UInt8 × Layer)) :
    topLevel depth (l ++ m) = topLevel depth l ++ topLevel (l.foldl depthAfter depth) m := by
  induction l generalizing depth with
  | nil => rfl
  | cons x l ih =>
      rw [List.cons_append, topLevel, topLevel, ih, List.foldl_cons]
      split <;> rfl

/-- No brace of code is among the bytes. -/
def Braceless (l : List (UInt8 × Layer)) : Prop :=
  ∀ x ∈ l, x.2 = .code → x.1 ≠ byte '{' ∧ x.1 ≠ byte '}'

theorem depthAfter_braceless {x : UInt8 × Layer}
    (h : x.2 = .code → x.1 ≠ byte '{' ∧ x.1 ≠ byte '}') (depth : Nat) : depthAfter depth x = depth := by
  rw [depthAfter]
  split
  · rename_i hcode
    rw [if_neg (h hcode).1, if_neg (h hcode).2]
  · rfl

theorem topLevel_braceless {l : List (UInt8 × Layer)} (h : Braceless l) (depth : Nat) :
    topLevel depth l = (if depth = 0 then l.map Blanking.commentsOnly.write else []) ∧
      l.foldl depthAfter depth = depth := by
  induction l with
  | nil => exact ⟨(ite_self _).symm, rfl⟩
  | cons x l ih =>
      obtain ⟨hx, hl⟩ := List.forall_mem_cons.mp h
      obtain ⟨htop, hdepth⟩ := ih hl
      rw [topLevel, List.foldl_cons, depthAfter_braceless hx, htop]
      simp only [or_self]
      exact ⟨by split <;> rfl, hdepth⟩

/-! ## Strides -/

/-- What one step of the scanner takes, and between which states. -/
structure Stride where
  taken : List UInt8
  start : State
  next : State

namespace Stride

def layered (x : Stride) : List (UInt8 × Layer) := x.taken.map (·, x.start.layerTo x.next)

def written (x : Stride) : List UInt8 := x.layered.map Blanking.commentsOnly.write

end Stride

/-- The scanner gets from one place to another in these strides. -/
inductive Strides : Place → List Stride → Place → Prop
  | refl (p : Place) : Strides p [] p
  | step {state next : State} {last : Option UInt8} {b : UInt8} {tail : List UInt8} {n : Nat}
      {l : List Stride} {q : Place} (h : Moves last b tail state n next)
      (further : Strides (Place.after ⟨state, last, b :: tail⟩ n next) l q) :
      Strides ⟨state, last, b :: tail⟩ (⟨(b :: tail).take n, state, next⟩ :: l) q

namespace Strides

variable {p q s : Place} {l m : List Stride}

theorem trans (h : Strides p l q) (h' : Strides q m s) : Strides p (l ++ m) s := by
  induction h with
  | refl => exact h'
  | step hmoves _ ih => exact step hmoves (ih h')

theorem split (h : Strides p (l ++ m) q) : ∃ r, Strides p l r ∧ Strides r m q := by
  induction l generalizing p with
  | nil => exact ⟨p, .refl p, h⟩
  | cons x l ih =>
      cases h with
      | step hmoves further =>
          obtain ⟨r, hfirst, hrest⟩ := ih further
          exact ⟨r, .step hmoves hfirst, hrest⟩

theorem reads (h : Strides p l q) : Reads p (l.flatMap Stride.layered) q := by
  induction h with
  | refl => exact .refl _
  | step hmoves _ ih => exact .step hmoves ih

end Strides

theorem Reads.exists_strides {p q : Place} {l : List (UInt8 × Layer)} (h : Reads p l q) :
    ∃ strides, Strides p strides q ∧ strides.flatMap Stride.layered = l := by
  induction h with
  | refl => exact ⟨[], .refl _, rfl⟩
  | step hmoves _ ih =>
      obtain ⟨strides, hstrides, rfl⟩ := ih
      exact ⟨_, .step hmoves hstrides, rfl⟩

/-! ## What a reader of braces does not know -/

/-- The scanner is in something that a reader of braces takes for code. -/
def State.isForeign : State → Bool
  | .markup | .heredoc _ => true
  | .literal quote => !(quote == byte '\'' || quote == byte '"')
  | .code | .lineComment | .blockComment => false

def Stride.isForeign (x : Stride) : Bool := x.start.isForeign || x.next.isForeign

/-- Where a reader of braces is while the scanner is in a state, if they agree. -/
def State.spot : State → Spot
  | .literal quote =>
    if quote = byte '\'' then .quoted .single else if quote = byte '"' then .quoted .double else .bare
  | _ => .bare

/-- A reader of braces takes all of the bytes for outside or none of them, and they leave the depth as
it is. -/
structure Passes (depth : Nat) (spot : Spot) (bytes : List UInt8) (spot' : Spot) : Prop where
  run : Level.run letter ⟨spot, depth⟩ bytes = ⟨spot', depth⟩
  outside : outsideBy letter ⟨spot, depth⟩ bytes = if depth = 0 then bytes else []

/-- A reader of braces passes over whatever it takes for code by mistake; `depth` braces are open in
front. -/
inductive Lucid : Nat → List Stride → Prop
  | nil (depth : Nat) : Lucid depth []
  | own {depth : Nat} {x : Stride} {l : List Stride} (h : x.isForeign = false)
      (further : Lucid (x.layered.foldl depthAfter depth) l) : Lucid depth (x :: l)
  | foreign {depth : Nat} {part l : List Stride} (h : ∀ x ∈ part, x.isForeign = true)
      (hpasses : Passes depth .bare (part.flatMap Stride.taken) .bare) (further : Lucid depth l) :
      Lucid depth (part ++ l)

/-! ## Bytes that a reader of braces passes over -/

namespace Passes

variable {depth : Nat} {spot spot' spot'' : Spot} {bytes further : List UInt8}

theorem nil (depth : Nat) (spot : Spot) : Passes depth spot [] spot := ⟨rfl, (ite_self _).symm⟩

theorem cons {b : UInt8} (hnext : Level.next ⟨spot, depth⟩ (letter b) = ⟨spot', depth⟩)
    (h : Passes depth spot' bytes spot'') : Passes depth spot (b :: bytes) spot'' := by
  refine ⟨?_, ?_⟩
  · rw [← h.run, ← hnext]
    rfl
  · rw [outsideBy, hnext, h.outside]
    simp only [or_self]
    split <;> rfl

theorem bare (h : ∀ b ∈ bytes, letter b ∉ braceSigns) (depth : Nat) : Passes depth .bare bytes .bare := by
  induction bytes with
  | nil => exact nil depth .bare
  | cons b bytes ih =>
      obtain ⟨hb, hbytes⟩ := List.forall_mem_cons.mp h
      exact cons (Level.next_bare hb depth) (ih hbytes)

end Passes

theorem letter_shown_true (b : UInt8) : letter (shown true b) ∉ braceSigns := by
  rw [shown]
  split
  · decide
  · rename_i hend
    simp only [Bool.true_and, Bool.not_eq_true', Bool.not_eq_false, isLineEnd, Bool.or_eq_true,
      beq_iff_eq] at hend
    rcases hend with rfl | rfl <;> decide

/-- Comments do not matter to a reader of braces. -/
theorem passes_comment (bytes : List UInt8) (depth : Nat) :
    Passes depth .bare (bytes.map (shown true)) .bare :=
  Passes.bare (List.forall_mem_map.mpr fun b _ => letter_shown_true b) depth

/-! ## One stride -/

/-- Over one stride the scanner and a reader of braces agree; where the reader is afterwards matters only
if something is left to read. -/
def AgreesOver (depth : Nat) (x : Stride) (ahead : List UInt8) : Prop :=
  ∃ spot, topLevel depth x.layered = outsideBy letter ⟨x.start.spot, depth⟩ x.written ∧
    Level.run letter ⟨x.start.spot, depth⟩ x.written = ⟨spot, x.layered.foldl depthAfter depth⟩ ∧
    (ahead ≠ [] → spot = x.next.spot)

theorem AgreesOver.of_passes {depth : Nat} {x : Stride} {ahead : List UInt8} {spot : Spot}
    (hbraces : Braceless x.layered) (h : Passes depth x.start.spot x.written spot)
    (hspot : ahead ≠ [] → spot = x.next.spot) : AgreesOver depth x ahead := by
  obtain ⟨htop, hdepth⟩ := topLevel_braceless hbraces depth
  refine ⟨spot, ?_, ?_, hspot⟩
  · rw [htop, h.outside]
    rfl
  · rw [hdepth, h.run]

theorem Stride.braceless {x : Stride} (h : x.start.layerTo x.next ≠ .code) : Braceless x.layered := by
  intro y hy hcode
  obtain ⟨b, _, rfl⟩ := List.mem_map.mp hy
  exact absurd hcode h

theorem Stride.written_eq (x : Stride) : x.written =
    x.taken.map (shown (Blanking.commentsOnly.hides (x.start.layerTo x.next))) :=
  map_write _ _ _

theorem AgreesOver.comment {depth : Nat} {x : Stride} {ahead : List UInt8}
    (hlayer : x.start.layerTo x.next = .comment) (hstart : x.start.spot = .bare)
    (hnext : x.next.spot = .bare) : AgreesOver depth x ahead := by
  have hpasses : Passes depth x.start.spot x.written .bare := by
    rw [x.written_eq, hlayer, hstart]
    exact passes_comment _ depth
  exact .of_passes (Stride.braceless (by rw [hlayer]; decide)) hpasses fun _ => hnext.symm

theorem AgreesOver.literal {depth : Nat} {x : Stride} {ahead : List UInt8} {spot : Spot}
    (hlayer : x.start.layerTo x.next = .literal) (h : Passes depth x.start.spot x.taken spot)
    (hspot : ahead ≠ [] → spot = x.next.spot) : AgreesOver depth x ahead := by
  refine .of_passes (Stride.braceless (by rw [hlayer]; decide)) ?_ hspot
  rw [x.written_eq, hlayer]
  exact (map_shown_false x.taken).symm ▸ h

/-- A byte of code, with its braces. -/
theorem next_bare_letter {b : UInt8} (h : isQuote b = false) (depth : Nat) :
    Level.next ⟨.bare, depth⟩ (letter b) = ⟨.bare, depthAfter depth (b, .code)⟩ := by
  simp only [isQuote, Bool.or_eq_false_iff, beq_eq_false_iff_ne] at h
  have hletter (c : Char) (hc : c.toNat < 0x80) : (letter b = c) = (b = byte c) :=
    propext (letter_eq_iff hc)
  simp only [Level.next, depthAfter, hletter '\'' (by decide), hletter '"' (by decide),
    hletter '{' (by decide), hletter '}' (by decide), h.1.1, h.1.2, ↓reduceIte]
  split
  · rfl
  · split <;> rfl

theorem AgreesOver.code {depth : Nat} {b : UInt8} {start next : State} {ahead : List UInt8}
    (hb : isQuote b = false) (hlayer : start.layerTo next = .code) (hstart : start.spot = .bare)
    (hnext : next.spot = .bare) : AgreesOver depth ⟨[b], start, next⟩ ahead := by
  have hlayered : Stride.layered ⟨[b], start, next⟩ = [(b, .code)] := by
    rw [Stride.layered, hlayer]
    rfl
  have hwritten : Stride.written ⟨[b], start, next⟩ = [b] := by
    rw [Stride.written, hlayered]
    rfl
  refine ⟨.bare, ?_, ?_, fun _ => hnext.symm⟩
  · rw [hlayered, hwritten, hstart, topLevel, outsideBy, next_bare_letter hb]
    rfl
  · rw [hlayered, hwritten, hstart]
    exact next_bare_letter hb depth

theorem exists_quotation {quote : UInt8} (h : State.isForeign (.literal quote) = false) :
    ∃ q : Quotation, quote = byte q.char ∧ State.spot (.literal quote) = .quoted q := by
  simp only [State.isForeign, Bool.not_eq_false', Bool.or_eq_true, beq_iff_eq] at h
  rcases h with rfl | rfl
  · exact ⟨.single, rfl, rfl⟩
  · exact ⟨.double, rfl, rfl⟩

variable {state next : State} {last : Option UInt8} {b : UInt8} {tail : List UInt8} {n : Nat}

theorem Moves.agreesOver (h : Moves last b tail state n next)
    (hown : Stride.isForeign ⟨(b :: tail).take n, state, next⟩ = false) (depth : Nat) :
    AgreesOver depth ⟨(b :: tail).take n, state, next⟩ ((b :: tail).drop n) := by
  obtain ⟨hstate, hnext⟩ := Bool.or_eq_false_iff.mp hown
  cases h with
  | openTag h => cases hstate
  | text h => cases hstate
  | closeTag h => cases hnext
  | openHeredoc hmark h hsize => cases hnext
  | closeHeredoc hlast h => cases hstate
  | inHeredoc h => cases hstate
  | openLineComment hclose h => exact .of_passes (List.forall_mem_nil _) (.nil _ _) fun _ => rfl
  | leaveLine hend h => exact .of_passes (List.forall_mem_nil _) (.nil _ _) fun _ => rfl
  | openBlockComment hclose hline h => exact .comment rfl rfl rfl
  | inLine hend h => exact .comment rfl rfl rfl
  | closeBlock h => exact .comment rfl rfl rfl
  | inBlock h => exact .comment rfl rfl rfl
  | plain hmark hheredoc h => exact .code h rfl rfl rfl
  | endLine h =>
      have hquote : isQuote b = false := by
        simp only [isLineEnd, Bool.or_eq_true, beq_iff_eq] at h
        rcases h with rfl | rfl <;> rfl
      exact .code hquote rfl rfl rfl
  | openLiteral hmark hheredoc h =>
      obtain ⟨q, rfl, hspot⟩ := exists_quotation hnext
      refine .literal rfl ?_ fun _ => hspot.symm
      exact .cons (by cases q <;> rfl) (.nil depth _)
  | @escape quote h =>
      obtain ⟨q, rfl, hspot⟩ := exists_quotation hstate
      simp only [Bool.and_eq_true, beq_iff_eq, Bool.not_eq_true', List.isEmpty_eq_false_iff] at h
      obtain ⟨rfl, hne⟩ := h
      obtain ⟨x, tail, rfl⟩ := List.exists_cons_of_ne_nil hne
      refine .literal rfl ?_ fun _ => hspot.symm
      have hescape : Level.next ⟨.quoted q, depth⟩ (letter (byte '\\')) = ⟨.escaped q, depth⟩ := by
        cases q <;> rfl
      rw [hspot]
      exact .cons hescape (.cons rfl (.nil depth _))
  | @closeLiteral quote hescape h =>
      obtain ⟨q, rfl, hspot⟩ := exists_quotation hstate
      obtain rfl := beq_iff_eq.mp h
      refine .literal rfl ?_ fun _ => rfl
      rw [hspot]
      exact .cons (by cases q <;> rfl) (.nil depth _)
  | @inLiteral quote hescape h =>
      obtain ⟨q, rfl, hspot⟩ := exists_quotation hstate
      have hquote : letter b ≠ q.char := by
        rw [Ne, letter_eq_iff q.ascii.1]
        exact beq_eq_false_iff_ne.mp h
      by_cases hslash : b = byte '\\'
      · -- a backslash at the end of the script
        subst hslash
        have htail : tail = [] := by simpa using hescape
        subst htail
        have hescape : Level.next ⟨.quoted q, depth⟩ (letter (byte '\\')) = ⟨.escaped q, depth⟩ := by
          rw [Level.next, if_neg hquote]
          rfl
        have hpasses : Passes depth (State.spot (.literal (byte q.char))) [byte '\\'] (.escaped q) := by
          rw [hspot]
          exact .cons hescape (.nil depth _)
        exact .literal rfl hpasses fun hne => absurd rfl hne
      · refine .literal rfl ?_ fun _ => hspot.symm
        rw [hspot]
        have hletter : letter b ≠ '\\' := by rwa [Ne, letter_eq_iff (by decide)]
        exact .cons (by rw [Level.next, if_neg hquote, if_neg hletter]) (.nil depth _)

theorem Moves.spot_of_isForeign (h : Moves last b tail state n next)
    (hforeign : Stride.isForeign ⟨(b :: tail).take n, state, next⟩ = true) :
    state.spot = .bare ∧ next.spot = .bare := by
  have hbare (quote : UInt8) (hquote : State.isForeign (.literal quote) = true) :
      State.spot (.literal quote) = .bare := by
    simp only [State.isForeign, Bool.not_eq_true', Bool.or_eq_false_iff, beq_eq_false_iff_ne] at hquote
    rw [State.spot, if_neg hquote.1, if_neg hquote.2]
  cases h with
  | openLiteral hmark hheredoc h => exact ⟨rfl, hbare b hforeign⟩
  | escape h =>
      have hquote := hbare _ ((Bool.or_self _).symm.trans hforeign)
      exact ⟨hquote, hquote⟩
  | closeLiteral hescape h =>
      exact ⟨hbare _ ((Bool.or_false _).symm.trans hforeign), rfl⟩
  | inLiteral hescape h =>
      have hquote := hbare _ ((Bool.or_self _).symm.trans hforeign)
      exact ⟨hquote, hquote⟩
  | _ => exact ⟨rfl, rfl⟩

theorem Moves.braceless_of_isForeign (h : Moves last b tail state n next)
    (hforeign : Stride.isForeign ⟨(b :: tail).take n, state, next⟩ = true) :
    Braceless (Stride.layered ⟨(b :: tail).take n, state, next⟩) := by
  cases h with
  | openTag h =>
      intro x hx _
      obtain ⟨y, hy, rfl⟩ := List.mem_map.mp hx
      have hmem := lowerByte_mem_openTag h y hy
      constructor
      · rintro rfl
        exact absurd hmem (by decide)
      · rintro rfl
        exact absurd hmem (by decide)
  | closeTag h =>
      have htake : (b :: tail).take 2 = mark "?>" := take_of_isPrefixOf h
      intro x hx _
      rw [htake] at hx
      obtain ⟨y, hy, rfl⟩ := List.mem_map.mp hx
      have hall : ∀ y ∈ mark "?>", y ≠ byte '{' ∧ y ≠ byte '}' :=
        List.all_iff_forall_prop.mp (by decide)
      exact hall y hy
  | openLineComment hclose h => cases hforeign
  | plain hmark hheredoc h => cases hforeign
  | endLine h => cases hforeign
  | leaveLine hend h => cases hforeign
  | _ => exact Stride.braceless nofun

theorem Moves.written_of_isForeign (h : Moves last b tail state n next)
    (hforeign : Stride.isForeign ⟨(b :: tail).take n, state, next⟩ = true) :
    Stride.written ⟨(b :: tail).take n, state, next⟩ = (b :: tail).take n := by
  have hshown : Blanking.commentsOnly.hides (state.layerTo next) = false := by
    cases h with
    | openBlockComment hclose hline h => cases hforeign
    | inLine hend h => cases hforeign
    | closeBlock h => cases hforeign
    | inBlock h => cases hforeign
    | _ => rfl
  rw [Stride.written_eq, hshown, map_shown_false]

/-! ## A whole reading -/

theorem Strides.over_foreign {p r : Place} {part : List Stride} (h : Strides p part r)
    (hforeign : ∀ x ∈ part, x.isForeign = true) (hspot : p.state.spot = .bare) :
    r.state.spot = .bare ∧ Braceless (part.flatMap Stride.layered) ∧
      part.flatMap Stride.written = part.flatMap Stride.taken := by
  induction h with
  | refl => exact ⟨hspot, List.forall_mem_nil _, rfl⟩
  | step hmoves _ ih =>
      obtain ⟨hx, hl⟩ := List.forall_mem_cons.mp hforeign
      obtain ⟨hrest, hbraces, hwritten⟩ := ih hl (hmoves.spot_of_isForeign hx).2
      refine ⟨hrest, ?_, ?_⟩
      · rw [List.flatMap_cons]
        exact List.forall_mem_append.mpr ⟨hmoves.braceless_of_isForeign hx, hbraces⟩
      · rw [List.flatMap_cons, List.flatMap_cons, hmoves.written_of_isForeign hx, hwritten]

/-- The scanner and a reader of braces agree on what stands at top level. -/
theorem topLevel_eq_outsideBy {depth : Nat} {l : List Stride} (hlucid : Lucid depth l) {p q : Place}
    {spot : Spot} (h : Strides p l q) (hspot : p.ahead ≠ [] → spot = p.state.spot) :
    topLevel depth (l.flatMap Stride.layered) =
      outsideBy letter ⟨spot, depth⟩ (l.flatMap Stride.written) := by
  induction hlucid generalizing p spot with
  | nil depth => rfl
  | @own depth x l hown further ih =>
      cases h with
      | step hmoves hstrides =>
          obtain rfl := hspot (List.cons_ne_nil _ _)
          obtain ⟨spot', htop, hrun, hnext⟩ := hmoves.agreesOver hown depth
          rw [List.flatMap_cons, List.flatMap_cons, topLevel_append, outsideBy_append, htop, hrun,
            ih hstrides hnext]
  | @foreign depth part l hforeign hpasses further ih =>
      obtain ⟨r, hpart, hrest⟩ := h.split
      cases part with
      | nil =>
          cases hpart
          exact ih hrest hspot
      | cons x part =>
          have hstart : p.ahead ≠ [] ∧ p.state.spot = .bare := by
            cases hpart with
            | step hmoves _ =>
                exact ⟨List.cons_ne_nil _ _,
                  (hmoves.spot_of_isForeign (hforeign _ List.mem_cons_self)).1⟩
          obtain rfl := hspot hstart.1
          obtain ⟨hr, hbraces, hwritten⟩ := hpart.over_foreign hforeign hstart.2
          obtain ⟨htop, hdepth⟩ := topLevel_braceless hbraces depth
          have hmap : ((x :: part).flatMap Stride.layered).map Blanking.commentsOnly.write =
              (x :: part).flatMap Stride.taken := by
            rw [← hwritten, List.map_flatMap]
            rfl
          rw [List.flatMap_append, List.flatMap_append, topLevel_append, outsideBy_append, htop, hdepth,
            hmap, hwritten, hstart.2, hpasses.outside, hpasses.run, ih hrest fun _ => hr.symm]

/-- Bytes without quotes and braces are passed over. -/
theorem lucid_of_unmarked {l : List Stride}
    (h : ∀ b ∈ (l.filter Stride.isForeign).flatMap Stride.taken, letter b ∉ braceSigns)
    (depth : Nat) : Lucid depth l := by
  induction l generalizing depth with
  | nil => exact .nil depth
  | cons x l ih =>
      cases hforeign : x.isForeign with
      | false =>
          rw [List.filter_cons_of_neg (Bool.eq_false_iff.mp hforeign)] at h
          exact .own hforeign (ih h _)
      | true =>
          rw [List.filter_cons_of_pos hforeign, List.flatMap_cons] at h
          obtain ⟨hx, hl⟩ := List.forall_mem_append.mp h
          have hpasses : Passes depth .bare ([x].flatMap Stride.taken) .bare := by
            rw [List.flatMap_singleton]
            exact Passes.bare hx depth
          exact .foreign (List.forall_mem_singleton.mpr hforeign) hpasses (ih hl depth)

/-! ## Scripts that only declare -/

/-- A script that only declares has been read to its end. If the reading is lucid, then all that stands
outside the braces of its code is an open tag, a namespace, imports, the heads of declarations with their
braces and a close tag. -/
theorem isDeclarationOnly_topLevel {source : List Char} (h : isDeclarationOnly source = .ok true) :
    (∃ l q, Strides ⟨.markup, none, encode source⟩ l q ∧ q.ahead = []) ∧
      ∀ l q, Strides ⟨.markup, none, encode source⟩ l q → q.ahead = [] → Lucid 0 l →
        collapse (decodeLossy (topLevel 0 (l.flatMap Stride.layered))) ∈ Grammar.script := by
  obtain ⟨cleaned, hclean, hdeclarative⟩ := isDeclarationOnly_eq_ok_iff.mp h
  obtain ⟨written, hscan, rfl⟩ := clean_eq_ok_iff.mp hclean
  have hencode := encode_decodeLossy_scan hscan
  constructor
  · obtain ⟨l, q, hreads, hend, _⟩ := scan_eq_ok_iff.mp hscan
    obtain ⟨strides, hstrides, _⟩ := hreads.exists_strides
    exact ⟨strides, q, hstrides, hend⟩
  · intro l q hstrides hend hlucid
    have hwritten : written = l.flatMap Stride.written := by
      have hown : scan .commentsOnly (encode source) =
          .ok ((l.flatMap Stride.layered).map Blanking.commentsOnly.write) :=
        scan_eq_ok_iff.mpr ⟨_, q, hstrides.reads, hend, rfl⟩
      rw [← Except.ok.inj (hown.symm.trans hscan), List.map_flatMap]
      rfl
    have htop : topLevel 0 (l.flatMap Stride.layered) = encode (outside .start (decodeLossy written)) := by
      rw [topLevel_eq_outsideBy hlucid hstrides fun _ => rfl, ← outsideBy_letter_encode, hencode,
        hwritten]
      rfl
    rw [htop, decodeLossy_encode, collapse_outside]
    exact outside_mem_script hdeclarative

theorem strides_plain (last : Option UInt8) (body rest : List UInt8)
    (h : ∀ b ∈ body, isQuote b = false ∧ b ∉ mark "#/?<") :
    Strides ⟨.code, last, body ++ rest⟩ (body.map fun b => ⟨[b], .code, .code⟩)
      ⟨.code, body.getLast?.or last, rest⟩ := by
  induction body generalizing last with
  | nil => exact .refl _
  | cons b body ih =>
      obtain ⟨hb, hbody⟩ := List.forall_mem_cons.mp h
      obtain ⟨hmark, hopener⟩ := not_mem_of_plain hb.2
      have hmoves : Moves last b (body ++ rest) .code 1 .code :=
        .plain (noMark_of_not_mem hmark) (opener?_cons_of_ne hopener) hb.1
      rw [getLast?_cons_or]
      exact .step hmoves (ih (some b) hbody)

/-- The script `<?php class A{const B='}';}`. -/
def braceInLiteral : List Char := "<?php class A\x7bconst B='\x7d';\x7d".toList

theorem isDeclarationOnly_topLevel_brace_in_literal :
    isDeclarationOnly braceInLiteral = .ok true ∧
      ∃ l q, Strides ⟨.markup, none, encode braceInLiteral⟩ l q ∧ q.ahead = [] ∧ Lucid 0 l ∧
        collapse (decodeLossy (topLevel 0 (l.flatMap Stride.layered))) ∈ Grammar.script := by
  let tag : List Stride := [⟨mark "<?php", .markup, .code⟩]
  let plain (s : String) : List Stride := (mark s).map fun b => ⟨[b], .code, .code⟩
  let quoted : List Stride := [⟨mark "'", .code, .literal (byte '\'')⟩,
    ⟨[byte '}'], .literal (byte '\''), .literal (byte '\'')⟩,
    ⟨mark "'", .literal (byte '\''), .code⟩]
  have htag : Strides ⟨.markup, none, encode braceInLiteral⟩ tag
      ⟨.code, some (byte 'p'), mark " class A\x7bconst B='\x7d';\x7d"⟩ :=
    .step (b := byte '<') (.openTag rfl) (.refl _)
  have hquoted : Strides ⟨.code, some (byte '='), mark "'\x7d';\x7d"⟩ quoted
      ⟨.code, some (byte '\''), mark ";\x7d"⟩ :=
    .step (b := byte '\'') (.openLiteral ⟨rfl, rfl, rfl⟩ rfl rfl) <|
    .step (b := byte '}') (.inLiteral rfl rfl) <|
    .step (b := byte '\'') (.closeLiteral rfl rfl) (.refl _)
  have hfirst : ∀ b ∈ mark " class A\x7bconst B=", isQuote b = false ∧ b ∉ mark "#/?<" :=
    List.all_iff_forall_prop.mp (by decide)
  have hlast : ∀ b ∈ mark ";\x7d", isQuote b = false ∧ b ∉ mark "#/?<" :=
    List.all_iff_forall_prop.mp (by decide)
  have hstrides := htag.trans <|
    (strides_plain _ (mark " class A\x7bconst B=") (mark "'\x7d';\x7d") hfirst).trans <|
    hquoted.trans (strides_plain _ (mark ";\x7d") [] hlast)
  have hlucid : Lucid 0 (tag ++ (plain " class A\x7bconst B=" ++ (quoted ++ plain ";\x7d"))) :=
    lucid_of_unmarked (List.all_iff_forall_prop.mp (by decide)) 0
  have hscan : scan .commentsOnly (encode braceInLiteral) = .ok (encode braceInLiteral) :=
    scan_eq_ok_iff.mpr ⟨_, _, hstrides.reads, rfl, by decide⟩
  have hclean := clean_eq_ok_iff.mpr ⟨_, hscan, decodeLossy_encode _⟩
  have hdeclares : isDeclarationOnly braceInLiteral = .ok true :=
    isDeclarationOnly_eq_ok_iff.mpr ⟨_, hclean, by decide⟩
  exact ⟨hdeclares, _, _, hstrides, rfl, hlucid,
    (isDeclarationOnly_topLevel hdeclares).2 _ _ hstrides rfl hlucid⟩

/-- The script ``<?php class A{function f(){`'`;}} g(); class B{function f(){`'`;}}``. -/
def callBetweenBackticks : List Char :=
  "<?php class A\x7bfunction f()\x7b`'`;\x7d\x7d g(); class B\x7bfunction f()\x7b`'`;\x7d\x7d".toList

/-- A call between two classes. A reader of braces takes what stands between the apostrophes for a
literal, although they stand in literals themselves. -/
theorem isDeclarationOnly_call_between_backticks :
    isDeclarationOnly callBetweenBackticks = .ok true ∧
      ∃ l q, Reads ⟨.markup, none, encode callBetweenBackticks⟩ l q ∧ q.ahead = [] ∧
        collapse (decodeLossy (topLevel 0 l)) ∉ Grammar.script := by
  let command : Piece := .literal (byte '`') [.plain (byte '\'')]
  have hcommand : command.WellFormed := ⟨rfl, by decide⟩
  have hsequence : Sequence .markup (.openTag (mark "<?php") ::
      ((mark " class A\x7bfunction f()\x7b").map Piece.plain ++ command ::
      ((mark ";\x7d\x7d g(); class B\x7bfunction f()\x7b").map Piece.plain ++ command ::
      ((mark ";\x7d\x7d").map Piece.plain ++ [])))) :=
    .cons rfl (.inl rfl) trivial <|
    sequence_plain _ (List.all_iff_forall_prop.mp (by decide)) <| .cons rfl hcommand trivial <|
    sequence_plain _ (List.all_iff_forall_prop.mp (by decide)) <| .cons rfl hcommand trivial <|
    sequence_plain _ (List.all_iff_forall_prop.mp (by decide)) (.nil _)
  obtain ⟨q, hreads, hend⟩ := hsequence.reads (.inl rfl) none
  have hscan : scan .commentsOnly (encode callBetweenBackticks) = .ok (encode callBetweenBackticks) :=
    scan_eq_ok_iff.mpr ⟨_, q, hreads, hend, by decide⟩
  have hclean := clean_eq_ok_iff.mpr ⟨_, hscan, decodeLossy_encode _⟩
  refine ⟨isDeclarationOnly_eq_ok_iff.mpr ⟨_, hclean, by decide⟩, _, q, hreads, hend, fun hscript => ?_⟩
  have hcall : isScriptChar '(' = true := over_script _ hscript '(' (by decide)
  cases hcall

end ExtensionLint.Script
