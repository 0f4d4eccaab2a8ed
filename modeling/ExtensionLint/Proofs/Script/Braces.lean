import Mathlib.Data.Bool.AllAny
import ExtensionLint.Proofs.Text.Blank
import ExtensionLint.Proofs.Text.Utf8
import ExtensionLint.Script.Declarations

/-!
# Text outside braces

A reader of braces knows how many of them are open and whether it stands in a literal, as
`closingBrace?` does. What it finds outside all braces stays the same when blanks collapse
(`collapse_outside`) and when it reads the bytes for the characters (`outsideBy_letter_encode`).
-/

namespace ExtensionLint.Script

open Text Utf8

/-- The quotes around the literals that a reader of braces knows. -/
inductive Quotation
  | single
  | double

def Quotation.char : Quotation → Char
  | single => '\''
  | double => '"'

theorem Quotation.ascii (q : Quotation) : q.char.toNat < 0x80 ∧ q.char ≠ '\\' := by
  cases q <;> decide

theorem Quotation.ne_open (q : Quotation) : q.char ≠ '{' := by
  cases q <;> decide

theorem Quotation.ne_close (q : Quotation) : q.char ≠ '}' := by
  cases q <;> decide

theorem Quotation.char_eq (q : Quotation) : q.char = '\'' ∨ q.char = '"' := by
  cases q
  · exact .inl rfl
  · exact .inr rfl

theorem Quotation.exists_char {c : Char} (h : c = '\'' ∨ c = '"') : ∃ q : Quotation, q.char = c := by
  rcases h with rfl | rfl
  · exact ⟨.single, rfl⟩
  · exact ⟨.double, rfl⟩

inductive Spot
  | bare
  | quoted (quote : Quotation)
  /-- In a literal, behind a backslash that hides the next character. -/
  | escaped (quote : Quotation)

/-- Where a reader of braces is, and how many braces are open there. -/
structure Level where
  spot : Spot
  depth : Nat

/-- The characters that a reader of braces looks for outside literals. -/
def braceSigns : List Char := ['\'', '"', '{', '}']

theorem Quotation.mem_braceSigns (q : Quotation) : q.char ∈ braceSigns := by
  cases q <;> decide

namespace Level

def start : Level := ⟨.bare, 0⟩

def next : Level → Char → Level
  | ⟨.bare, depth⟩, c =>
    if c = '\'' then ⟨.quoted .single, depth⟩
    else if c = '"' then ⟨.quoted .double, depth⟩
    else if c = '{' then ⟨.bare, depth + 1⟩
    else if c = '}' then ⟨.bare, depth - 1⟩
    else ⟨.bare, depth⟩
  | ⟨.quoted q, depth⟩, c =>
    if c = q.char then ⟨.bare, depth⟩
    else if c = '\\' then ⟨.escaped q, depth⟩
    else ⟨.quoted q, depth⟩
  | ⟨.escaped q, depth⟩, _ => ⟨.quoted q, depth⟩

/-- The level behind a character without a meaning of its own. -/
def settle : Level → Level
  | ⟨.escaped q, depth⟩ => ⟨.quoted q, depth⟩
  | t => t

theorem depth_settle (t : Level) : t.settle.depth = t.depth := by
  obtain ⟨spot, depth⟩ := t
  cases spot <;> rfl

theorem settle_settle (t : Level) : t.settle.settle = t.settle := by
  obtain ⟨spot, depth⟩ := t
  cases spot <;> rfl

theorem next_bare {c : Char} (h : c ∉ braceSigns) (depth : Nat) :
    next ⟨.bare, depth⟩ c = ⟨.bare, depth⟩ := by
  simp only [braceSigns, List.mem_cons, List.not_mem_nil, or_false, not_or] at h
  obtain ⟨hsingle, hdouble, hopen, hclose⟩ := h
  rw [next, if_neg hsingle, if_neg hdouble, if_neg hopen, if_neg hclose]

theorem next_inert {c : Char} (h : c ∉ braceSigns) (hslash : c ≠ '\\') (t : Level) :
    t.next c = t.settle := by
  obtain ⟨spot, depth⟩ := t
  cases spot with
  | bare => exact next_bare h depth
  | quoted q =>
      have hquote : c ≠ q.char := by
        rintro rfl
        exact h q.mem_braceSigns
      rw [next, if_neg hquote, if_neg hslash]
      rfl
  | escaped q => rfl

theorem depth_next_quoted (q : Quotation) (depth : Nat) (c : Char) :
    (next ⟨.quoted q, depth⟩ c).depth = depth := by
  rw [next]
  split
  · rfl
  · split <;> rfl

end Level

/-! ## What stands outside -/

section

variable {α : Type} (sign : α → Char)

/-- The level behind a text whose items stand for characters. -/
def Level.run (t : Level) (l : List α) : Level := l.foldl (fun t x => t.next (sign x)) t

/-- The items of a text outside all braces, the outermost braces among them. -/
def outsideBy : Level → List α → List α
  | _, [] => []
  | t, x :: l =>
    if t.depth = 0 ∨ (t.next (sign x)).depth = 0 then x :: outsideBy (t.next (sign x)) l
    else outsideBy (t.next (sign x)) l

variable {sign}

theorem outsideBy_zero {t : Level} (h : t.depth = 0) (x : α) (l : List α) :
    outsideBy sign t (x :: l) = x :: outsideBy sign (t.next (sign x)) l := if_pos (.inl h)

theorem outsideBy_deep {t : Level} {x : α} (h : t.depth ≠ 0) (hnext : (t.next (sign x)).depth ≠ 0)
    (l : List α) : outsideBy sign t (x :: l) = outsideBy sign (t.next (sign x)) l :=
  if_neg (not_or.mpr ⟨h, hnext⟩)

theorem outsideBy_append (t : Level) (l m : List α) :
    outsideBy sign t (l ++ m) = outsideBy sign t l ++ outsideBy sign (t.run sign l) m := by
  induction l generalizing t with
  | nil => rfl
  | cons x l ih =>
      have hrun : t.run sign (x :: l) = (t.next (sign x)).run sign l := rfl
      rw [List.cons_append, outsideBy, outsideBy, ih, hrun]
      split <;> rfl

theorem outsideBy_bare {l : List α} (h : ∀ x ∈ l, sign x ∉ braceSigns) (m : List α) :
    outsideBy sign .start (l ++ m) = l ++ outsideBy sign .start m := by
  induction l with
  | nil => rfl
  | cons x l ih =>
      have hx : Level.start.next (sign x) = .start := Level.next_bare (h x List.mem_cons_self) 0
      rw [List.cons_append, outsideBy_zero rfl, hx, ih fun y hy => h y (List.mem_cons_of_mem x hy),
        List.cons_append]

theorem outsideBy_cons_inert {x : α} (h : sign x ∉ braceSigns ∧ sign x ≠ '\\') (t : Level) (l : List α) :
    outsideBy sign t (x :: l) =
      if t.depth = 0 then x :: outsideBy sign t.settle l else outsideBy sign t.settle l := by
  rw [outsideBy, Level.next_inert h.1 h.2, Level.depth_settle]
  simp only [or_self]

theorem outsideBy_inert {l : List α} (hne : l ≠ [])
    (h : ∀ x ∈ l, sign x ∉ braceSigns ∧ sign x ≠ '\\') (t : Level) (m : List α) :
    outsideBy sign t (l ++ m) = (if t.depth = 0 then l else []) ++ outsideBy sign t.settle m := by
  induction l generalizing t with
  | nil => exact absurd rfl hne
  | cons x l ih =>
      obtain ⟨hx, hl⟩ := List.forall_mem_cons.mp h
      have hrest : outsideBy sign t.settle (l ++ m) =
          (if t.depth = 0 then l else []) ++ outsideBy sign t.settle m := by
        cases l with
        | nil => rw [List.nil_append, ite_self, List.nil_append]
        | cons y l =>
            rw [ih (List.cons_ne_nil _ _) hl, Level.depth_settle, Level.settle_settle]
      rw [List.cons_append, outsideBy_cons_inert hx, hrest]
      split <;> rfl

end

/-- The characters of a text outside all braces. -/
def outside (t : Level) (s : List Char) : List Char := outsideBy id t s

theorem outside_cons (t : Level) (c : Char) (s : List Char) :
    outside t (c :: s) = if t.depth = 0 ∨ (t.next c).depth = 0 then c :: outside (t.next c) s
      else outside (t.next c) s := rfl

theorem outside_cons_inert {c : Char} (h : c ∉ braceSigns ∧ c ≠ '\\') (t : Level) (s : List Char) :
    outside t (c :: s) =
      if t.depth = 0 then c :: outside t.settle s else outside t.settle s := by
  have hinert : id c ∉ braceSigns ∧ id c ≠ '\\' := h
  exact outsideBy_cons_inert hinert t s

/-! ## The closing brace -/

/-- What a reader remembers of the literal it stands in. -/
def Spot.delimiter : Spot → Option Char
  | .bare => none
  | .quoted q | .escaped q => some q.char

theorem Spot.eq_bare {spot : Spot} (h : spot.delimiter = none) : spot = .bare := by
  cases spot with
  | bare => rfl
  | quoted q => cases h
  | escaped q => cases h

theorem Spot.exists_quoted {spot : Spot} {c : Char} (h : spot.delimiter = some c)
    (hspot : ∀ q, spot ≠ .escaped q) : ∃ q : Quotation, q.char = c ∧ spot = .quoted q := by
  cases spot with
  | bare => cases h
  | quoted q => exact ⟨q, Option.some.inj h, rfl⟩
  | escaped q => exact absurd rfl (hspot q)

/-- The brace at `place`, counted from `offset`, is the first that brings the reader outside. -/
def ReturnsAt (t : Level) (s : List Char) (offset place : Nat) : Prop :=
  ∃ inner rest, s = inner ++ '}' :: rest ∧ place = offset + inner.length ∧
    outside t s = '}' :: outside .start rest

theorem ReturnsAt.cons {t : Level} {c : Char} {s : List Char} {offset place : Nat}
    (ht : t.depth ≠ 0) (hnext : (t.next c).depth ≠ 0)
    (h : ReturnsAt (t.next c) s (offset + 1) place) : ReturnsAt t (c :: s) offset place := by
  obtain ⟨inner, rest, rfl, hplace, houtside⟩ := h
  refine ⟨c :: inner, rest, rfl, by rw [hplace, List.length_cons]; omega, ?_⟩
  rw [← houtside]
  exact outsideBy_deep ht hnext _

/-- Outside literals the depth changes at braces only. -/
theorem closingBraceFrom_bare {c : Char} (h : c ≠ '}') (depth : Nat) (s : List Char) (offset : Nat) :
    closingBraceFrom none depth (c :: s) offset =
      if c = '\'' ∨ c = '"' then closingBraceFrom (some c) depth s (offset + 1)
      else closingBraceFrom none (if c = '{' then depth + 1 else depth) s (offset + 1) := by
  have hsplit : closingBraceFrom none depth (c :: s) offset =
      if c = '\'' ∨ c = '"' then closingBraceFrom (some c) depth s (offset + 1)
      else if c = '{' then closingBraceFrom none (depth + 1) s (offset + 1)
      else closingBraceFrom none depth s (offset + 1) := by
    match depth with
    | 0 | 1 | depth + 2 => rw [closingBraceFrom, if_neg h]
  rw [hsplit]
  split
  · rfl
  · split <;> rfl

theorem closingBraceFrom_quote (q : Quotation) (depth : Nat) (s : List Char) (offset : Nat) :
    closingBraceFrom none depth (q.char :: s) offset =
      closingBraceFrom (some q.char) depth s (offset + 1) := by
  rw [closingBraceFrom_bare q.ne_close, if_pos q.char_eq]

theorem closingBraceFrom_open (depth : Nat) (s : List Char) (offset : Nat) :
    closingBraceFrom none depth ('{' :: s) offset = closingBraceFrom none (depth + 1) s (offset + 1) := by
  rw [closingBraceFrom_bare (by decide), if_neg (by decide), if_pos rfl]

theorem closingBraceFrom_plain {c : Char} (h : c ∉ braceSigns) (depth : Nat) (s : List Char)
    (offset : Nat) :
    closingBraceFrom none depth (c :: s) offset = closingBraceFrom none depth s (offset + 1) := by
  simp only [braceSigns, List.mem_cons, List.not_mem_nil, or_false, not_or] at h
  obtain ⟨hsingle, hdouble, hopen, hclose⟩ := h
  rw [closingBraceFrom_bare hclose, if_neg (not_or.mpr ⟨hsingle, hdouble⟩), if_neg hopen]

/-- A character that neither ends a text as a backslash nor hides another one. -/
theorem ne_backslash {c : Char} {s : List Char} (hend : c = '\\' → s = [] → False)
    (hescape : ∀ x t, c = '\\' → s = x :: t → False) : c ≠ '\\' := by
  intro hc
  cases s with
  | nil => exact hend hc rfl
  | cons x t => exact hescape x t hc rfl

theorem returnsAt_of_closingBraceFrom {quote : Option Char} {depth : Nat} {s : List Char}
    {offset place : Nat} (h : closingBraceFrom quote depth s offset = some place) (hdepth : depth ≠ 0)
    {spot : Spot} (hquote : spot.delimiter = quote) (hspot : ∀ q, spot ≠ .escaped q) :
    ReturnsAt ⟨spot, depth⟩ s offset place := by
  induction quote, depth, s, offset using closingBraceFrom.induct generalizing spot with
  | case1 => cases h
  | case2 => cases h
  | case3 q depth c s offset ih =>
      obtain ⟨quote, rfl, rfl⟩ := Spot.exists_quoted hquote hspot
      have hnext : Level.next ⟨.quoted quote, depth⟩ '\\' = ⟨.escaped quote, depth⟩ := by
        cases quote <;> rfl
      refine .cons hdepth (by rwa [hnext]) ?_
      rw [hnext]
      exact .cons hdepth hdepth (ih h hdepth rfl nofun)
  | case4 q depth c s offset hend hescape ih =>
      obtain ⟨quote, rfl, rfl⟩ := Spot.exists_quoted hquote hspot
      rw [closingBraceFrom.eq_4 _ _ _ _ _ hend hescape] at h
      have hslash := ne_backslash hend hescape
      refine .cons hdepth (by rwa [Level.depth_next_quoted]) ?_
      rw [Level.next]
      by_cases hc : c = quote.char
      · rw [if_pos hc] at h ih
        rw [if_pos hc]
        exact ih h hdepth rfl nofun
      · rw [if_neg hc] at h ih
        rw [if_neg hc, if_neg hslash]
        exact ih h hdepth rfl nofun
  | case5 depth c s offset hc ih =>
      obtain rfl := Spot.eq_bare hquote
      obtain ⟨q, rfl⟩ := Quotation.exists_char hc
      rw [closingBraceFrom_quote] at h
      have hnext : Level.next ⟨.bare, depth⟩ q.char = ⟨.quoted q, depth⟩ := by
        cases q <;> rfl
      refine .cons hdepth (by rwa [hnext]) ?_
      rw [hnext]
      exact ih h hdepth rfl nofun
  | case6 depth s offset _ ih =>
      obtain rfl := Spot.eq_bare hquote
      exact .cons hdepth (Nat.succ_ne_zero _) (ih h (Nat.succ_ne_zero _) rfl nofun)
  | case7 => exact absurd rfl hdepth
  | case8 s offset _ _ =>
      obtain rfl := Spot.eq_bare hquote
      cases h
      exact ⟨[], s, rfl, rfl, rfl⟩
  | case9 s offset depth _ _ ih =>
      obtain rfl := Spot.eq_bare hquote
      exact .cons hdepth (Nat.succ_ne_zero _) (ih h (Nat.succ_ne_zero _) rfl nofun)
  | case10 depth c s offset hc hopen hclose ih =>
      obtain rfl := Spot.eq_bare hquote
      have hsign : c ∉ braceSigns := by simpa [braceSigns, hopen, hclose] using hc
      rw [closingBraceFrom_plain hsign] at h
      have hnext : Level.next ⟨.bare, depth⟩ c = ⟨.bare, depth⟩ := Level.next_bare hsign depth
      refine .cons hdepth (by rwa [hnext]) ?_
      rw [hnext]
      exact ih h hdepth rfl nofun

/-! ## Blanks -/

theorem not_mem_braceSigns_of_isBlank {c : Char} (h : isBlank c = true) :
    c ∉ braceSigns ∧ c ≠ '\\' := by
  have hne (x : Char) (hx : isBlank x = false) : c ≠ x := by
    rintro rfl
    rw [h] at hx
    cases hx
  refine ⟨fun hc => ?_, hne _ rfl⟩
  have hall : ∀ x ∈ braceSigns, isBlank x = false := List.all_iff_forall_prop.mp (by decide)
  exact hne c (hall c hc) rfl

/-- What stands outside braces collapses like the text. Where the next character is inside, what stood
outside ended with a brace. -/
theorem tidy_outside (s : List Char) :
    tidy .fresh (outside .start s) = outside .start (tidy .fresh s) ∧
      (∀ t : Level, tidy .tight (outside t s) = outside t (tidy .tight s)) ∧
      ∀ t : Level, tidy (if t.depth = 0 then .loose else .tight) (outside t.settle s) =
        outside t (tidy .loose s) := by
  induction s with
  | nil => exact ⟨rfl, fun _ => rfl, fun _ => rfl⟩
  | cons c s ih =>
      obtain ⟨hfresh, htight, hloose⟩ := ih
      cases hc : isBlank c with
      | true =>
          have houtside := outside_cons_inert (not_mem_braceSigns_of_isBlank hc)
          refine ⟨?_, fun t => ?_, fun t => ?_⟩
          · rw [tidy_blank hc, houtside]
            exact (tidy_blank hc _ _).trans hfresh
          · rw [tidy_blank hc, houtside, Spacing.blank, ← hloose]
            split
            · rw [tidy_blank hc, Spacing.blank]
            · rfl
          · rw [tidy_blank hc, houtside, Level.depth_settle, Level.settle_settle, Spacing.blank,
              ← hloose]
            split
            · rw [tidy_blank hc, Spacing.blank]
            · rfl
      | false =>
          have hvisible (t : Level) : tidy .tight (outside t (c :: s)) =
              outside t (c :: tidy .tight s) := by
            rw [outside_cons, outside_cons, ← htight]
            split
            · rw [tidy_visible hc]
              rfl
            · rfl
          refine ⟨?_, fun t => ?_, fun t => ?_⟩
          · have houtside (s : List Char) : outside .start (c :: s) =
                c :: outside (Level.start.next c) s := outsideBy_zero rfl c s
            rw [houtside, tidy_visible hc, tidy_visible hc, htight]
            exact (houtside _).symm
          · rw [tidy_visible hc]
            exact hvisible t
          · have hspace := not_mem_braceSigns_of_isBlank (c := ' ') rfl
            have hloose : tidy .loose (c :: s) = ' ' :: c :: tidy .tight s := tidy_visible hc _ _
            rw [hloose, outside_cons_inert hspace, ← hvisible]
            split
            · rename_i hzero
              rw [outside_cons, Level.depth_settle, if_pos (.inl hzero), tidy_visible hc,
                tidy_visible hc]
              rfl
            · rfl

/-- Collapsing blanks changes nothing about what stands outside. -/
theorem collapse_outside (s : List Char) :
    collapse (outside .start s) = outside .start (collapse s) := by
  rw [collapse_eq_tidy, collapse_eq_tidy]
  exact (tidy_outside s).1

/-! ## Bytes -/

/-- The character that a byte spells by itself. -/
def letter (b : UInt8) : Char := Char.ofNat b.toNat

theorem letter_byte {c : Char} (h : c.toNat < 0x80) : letter (UInt8.ofNat c.toNat) = c := by
  rw [letter, toNat_byte (by omega), Char.ofNat_toNat]

theorem toNat_letter (b : UInt8) : (letter b).toNat = b.toNat := by
  have hvalid : b.toNat.isValidChar := .inl (Nat.lt_trans b.toNat_lt (by decide))
  rw [letter, Char.ofNat, dif_pos hvalid]
  rfl

theorem letter_eq_iff {b : UInt8} {c : Char} (hc : c.toNat < 0x80) : letter b = c ↔ b = byte c := by
  constructor
  · rintro rfl
    rw [byte, toNat_letter, UInt8.ofNat_toNat]
  · rintro rfl
    exact letter_byte hc

theorem not_mem_braceSigns_of_not_ascii {c : Char} (h : 0x80 ≤ c.toNat) :
    c ∉ braceSigns ∧ c ≠ '\\' := by
  constructor
  · intro hc
    have hall : ∀ x ∈ braceSigns, x.toNat < 0x80 := List.all_iff_forall_prop.mp (by decide)
    exact absurd (hall c hc) (by omega)
  · rintro rfl
    exact absurd h (by decide)

/-- A reader of bytes finds the bytes of what a reader of characters finds. -/
theorem outsideBy_letter_encode (t : Level) (s : List Char) :
    outsideBy letter t (encode s) = encode (outside t s) := by
  induction s generalizing t with
  | nil => rfl
  | cons c s ih =>
      rw [encode_cons]
      by_cases hascii : c.toNat < 0x80
      · rw [outside_cons, encodeChar_ascii hascii, List.singleton_append, outsideBy, letter_byte hascii, ih]
        split
        · rw [encode_cons, encodeChar_ascii hascii, List.singleton_append]
        · rfl
      · have hinert := not_mem_braceSigns_of_not_ascii (Nat.le_of_not_lt hascii)
        have hletters : ∀ b ∈ String.utf8EncodeChar c, letter b ∉ braceSigns ∧ letter b ≠ '\\' := by
          intro b hb
          have hbeyond := not_ascii_of_mem_encodeChar (Nat.le_of_not_lt hascii) hb
          exact not_mem_braceSigns_of_not_ascii (by rw [toNat_letter]; exact Nat.le_of_not_lt hbeyond)
        rw [outsideBy_inert (encodeChar_ne_nil c) hletters, ih, outside_cons_inert hinert]
        split
        · rw [encode_cons]
        · rfl

end ExtensionLint.Script
