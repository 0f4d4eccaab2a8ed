import ExtensionLint.Proofs.Script.Braces

/-!
# Pairs of braces

The brace that closes another one stands behind a text whose own braces come in pairs
(`closingBrace?_eq_some_iff`). A reader of the bytes finds the same brace, at a whole character
(`closingBrace?_letters`).
-/

namespace ExtensionLint.Script

open Text Utf8

/-- What stands between two quotes. A backslash hides the character after it. -/
inductive Quotation.Content (q : Quotation) : List Char → Prop
  | nil : Content q []
  | char {c : Char} {s : List Char} : c ≠ q.char → c ≠ '\\' → Content q s → Content q (c :: s)
  | hidden (c : Char) {s : List Char} : Content q s → Content q ('\\' :: c :: s)

/-- Text whose braces come in pairs. Between quotes braces do not count. -/
inductive Balanced : List Char → Prop
  | nil : Balanced []
  | char {c : Char} {s : List Char} : c ∉ braceSigns → Balanced s → Balanced (c :: s)
  | literal (q : Quotation) {inner s : List Char} :
      q.Content inner → Balanced s → Balanced (q.char :: (inner ++ q.char :: s))
  | braces {inner s : List Char} :
      Balanced inner → Balanced s → Balanced ('{' :: (inner ++ '}' :: s))

theorem Balanced.append {a b : List Char} (ha : Balanced a) (hb : Balanced b) : Balanced (a ++ b) := by
  induction ha with
  | nil => exact hb
  | char hc _ ih => exact .char hc ih
  | literal q hinner _ ih =>
      rw [List.cons_append, List.append_assoc]
      exact .literal q hinner ih
  | braces hinner _ _ ih =>
      rw [List.cons_append, List.append_assoc]
      exact .braces hinner ih

/-- Text that brings a reader of braces down by `depth`, from one pair of braces to another. -/
def Leaves : Nat → List Char → Prop
  | 0, s => Balanced s
  | depth + 1, s => ∃ front back, s = front ++ '}' :: back ∧ Balanced front ∧ Leaves depth back

theorem Leaves.prepend {depth : Nat} {a s : List Char} (ha : Balanced a) (hs : Leaves depth s) :
    Leaves depth (a ++ s) := by
  cases depth with
  | zero => exact ha.append hs
  | succ depth =>
      obtain ⟨front, back, rfl, hfront, hback⟩ := hs
      exact ⟨a ++ front, back, (List.append_assoc _ _ _).symm, ha.append hfront, hback⟩

theorem Leaves.open {depth : Nat} {s : List Char} (hs : Leaves (depth + 1) s) :
    Leaves depth ('{' :: s) := by
  obtain ⟨front, back, rfl, hfront, hback⟩ := hs
  have hpair := hback.prepend (.braces hfront .nil)
  rwa [List.cons_append, List.append_assoc] at hpair

/-- A reader of braces stands in a literal, or in none. -/
def Quoting (quote : Option Char) : Prop := ∀ c ∈ quote, ∃ q : Quotation, q.char = c

theorem quoting_none : Quoting none := by
  intro c hc
  cases hc

theorem quoting_some (q : Quotation) : Quoting (some q.char) := fun _ hc => ⟨q, Option.some.inj hc⟩

/-! ## The closing brace -/

section

variable {q : Quotation} {depth offset place : Nat} {c : Char} {a s rest : List Char}

theorem closingBraceFrom_quoted (h : c ≠ '\\') (depth : Nat) (s : List Char) (offset : Nat) :
    closingBraceFrom (some q.char) depth (c :: s) offset =
      closingBraceFrom (if c = q.char then none else some q.char) depth s (offset + 1) := by
  refine closingBraceFrom.eq_4 _ _ _ _ _ (fun hc _ => h hc) fun _ _ hc _ => h hc

theorem closingBraceFrom_content (h : q.Content a) (depth : Nat) (rest : List Char) (offset : Nat) :
    closingBraceFrom (some q.char) depth (a ++ q.char :: rest) offset =
      closingBraceFrom none depth rest (offset + a.length + 1) := by
  induction h generalizing offset with
  | nil =>
      exact (closingBraceFrom_quoted q.ascii.2 _ _ _).trans (by rw [if_pos rfl]; rfl)
  | @char c s hquote hslash _ ih =>
      rw [List.cons_append, closingBraceFrom_quoted hslash, if_neg hquote, ih, List.length_cons]
      congr 1
      omega
  | @hidden c s _ ih =>
      rw [List.cons_append, List.cons_append, closingBraceFrom, ih, List.length_cons, List.length_cons]
      congr 1
      omega

theorem closingBraceFrom_balanced (ha : Balanced a) (depth : Nat) (rest : List Char) (offset : Nat) :
    closingBraceFrom none (depth + 1) (a ++ rest) offset =
      closingBraceFrom none (depth + 1) rest (offset + a.length) := by
  induction ha generalizing depth rest offset with
  | nil => rfl
  | @char c s hc _ ih =>
      rw [List.cons_append, closingBraceFrom_plain hc, ih, List.length_cons]
      congr 1
      omega
  | @literal q inner s hinner _ ih =>
      rw [List.cons_append, List.append_assoc, closingBraceFrom_quote, List.cons_append,
        closingBraceFrom_content hinner, ih]
      congr 1
      simp only [List.length_cons, List.length_append]
      omega
  | @braces inner s _ _ ihInner ih =>
      have hnext : closingBraceFrom none (depth + 2) ('}' :: (s ++ rest)) (offset + 1 + inner.length) =
          closingBraceFrom none (depth + 1) (s ++ rest) (offset + 1 + inner.length + 1) := rfl
      rw [List.cons_append, List.append_assoc, closingBraceFrom_open, List.cons_append, ihInner, hnext, ih]
      congr 1
      simp only [List.length_cons, List.length_append]
      omega

/-- What a reader of braces has yet to pass, after `quote` perhaps and `depth` braces beyond the one to
be closed. -/
def Pending (quote : Option Char) (depth : Nat) (s : List Char) : Prop :=
  match quote with
  | none => Leaves depth s
  | some c => ∃ q : Quotation, q.char = c ∧
      ∃ front back, s = front ++ c :: back ∧ q.Content front ∧ Leaves depth back

/-- The brace at `place`, counted from `offset`, closes what is pending. -/
def ClosesAt (quote : Option Char) (depth : Nat) (s : List Char) (offset place : Nat) : Prop :=
  ∃ inner rest, s = inner ++ '}' :: rest ∧ place = offset + inner.length ∧ Pending quote depth inner

theorem ClosesAt.cons {quote quote' : Option Char} {depth' : Nat}
    (h : ClosesAt quote' depth' s (offset + 1) place)
    (hpending : ∀ inner, Pending quote' depth' inner → Pending quote depth (c :: inner)) :
    ClosesAt quote depth (c :: s) offset place := by
  obtain ⟨inner, rest, rfl, rfl, hinner⟩ := h
  refine ⟨c :: inner, rest, rfl, ?_, hpending inner hinner⟩
  rw [List.length_cons]
  omega

theorem Pending.unquote {inner : List Char} (h : Pending (some q.char) depth inner) :
    Pending none depth (q.char :: inner) := by
  obtain ⟨q', hq, front, back, rfl, hfront, hback⟩ := h
  rw [← hq]
  have hliteral := hback.prepend (.literal q' hfront .nil)
  rwa [List.cons_append, List.append_assoc] at hliteral

theorem closesAt_of_closingBraceFrom {quote : Option Char}
    (h : closingBraceFrom quote (depth + 1) s offset = some place)
    (hquote : Quoting quote) : ClosesAt quote depth s offset place := by
  -- the reader counts the brace to be closed as well, so its depth is one more
  generalize hsize : depth + 1 = size at h
  induction quote, size, s, offset using closingBraceFrom.induct generalizing depth with
  | case1 => cases h
  | case2 => cases h
  | case3 x size c s offset ih =>
      have hrest := ih hquote hsize h
      obtain ⟨inner, rest, rfl, rfl, q, hq, front, back, rfl, hfront, hback⟩ := hrest
      refine ⟨'\\' :: c :: (front ++ x :: back), rest, rfl, ?_,
        q, hq, '\\' :: c :: front, back, rfl, .hidden c hfront, hback⟩
      simp only [List.length_cons]
      omega
  | case4 x size c s offset hend hescape ih =>
      obtain ⟨q, rfl⟩ := hquote x rfl
      rw [closingBraceFrom.eq_4 _ _ _ _ _ hend hescape] at h
      have hslash := ne_backslash hend hescape
      by_cases hc : c = q.char
      · subst hc
        rw [if_pos rfl] at h ih
        exact (ih quoting_none hsize h).cons fun inner hinner => ⟨q, rfl, [], inner, rfl, .nil, hinner⟩
      · rw [if_neg hc] at h ih
        refine (ih hquote hsize h).cons ?_
        rintro _ ⟨q', hq, front, back, rfl, hfront, hback⟩
        exact ⟨q', hq, c :: front, back, rfl, .char (hq ▸ hc) hslash hfront, hback⟩
  | case5 size c s offset hc ih =>
      obtain ⟨q, rfl⟩ := Quotation.exists_char hc
      rw [closingBraceFrom_quote] at h
      have hrest := ih (quoting_some q) hsize h
      exact hrest.cons fun inner hinner => hinner.unquote
  | case6 size s offset _ ih =>
      exact (ih quoting_none (congrArg (· + 1) hsize) h).cons fun inner hinner => Leaves.open hinner
  | case7 => cases hsize
  | case8 s offset _ _ =>
      obtain rfl := Nat.succ.inj hsize
      cases h
      exact ⟨[], s, rfl, rfl, .nil⟩
  | case9 s offset size _ _ ih =>
      obtain rfl := Nat.succ.inj hsize
      exact (ih quoting_none rfl h).cons fun inner hinner => ⟨[], inner, rfl, .nil, hinner⟩
  | case10 size c s offset hc hopen hclose ih =>
      have hsign : c ∉ braceSigns := by simpa [braceSigns, hopen, hclose] using hc
      rw [closingBraceFrom_plain hsign] at h
      exact (ih quoting_none hsize h).cons fun inner hinner =>
        Leaves.prepend (.char hsign .nil) hinner

end

/-- A brace is closed by the one behind a text whose braces come in pairs. -/
theorem closingBrace?_eq_some_iff {s : List Char} {place : Nat} :
    closingBrace? ('{' :: s) = some place ↔
      ∃ inner rest, s = inner ++ '}' :: rest ∧ Balanced inner ∧ place = inner.length + 1 := by
  have hopen (s : List Char) : closingBrace? ('{' :: s) = closingBraceFrom none 1 s 1 := rfl
  rw [hopen]
  constructor
  · intro h
    obtain ⟨inner, rest, rfl, rfl, hinner⟩ := closesAt_of_closingBraceFrom h quoting_none
    exact ⟨inner, rest, rfl, hinner, Nat.add_comm _ _⟩
  · rintro ⟨inner, rest, rfl, hinner, rfl⟩
    rw [closingBraceFrom_balanced hinner, Nat.add_comm inner.length]
    rfl

theorem drop_pair (inner rest : List Char) :
    ('{' :: (inner ++ '}' :: rest)).drop (inner.length + 1 + 1) = rest := by
  rw [List.drop_succ_cons, List.drop_length_add_append]
  rfl

/-! ## Bytes -/

theorem closingBraceFrom_offset (quote : Option Char) (depth : Nat) (s : List Char) (offset : Nat) :
    closingBraceFrom quote depth s offset = (closingBraceFrom quote depth s 0).map (offset + ·) := by
  have hshift (offset shift : Nat) : closingBraceFrom quote depth s (shift + offset) =
      (closingBraceFrom quote depth s offset).map (shift + ·) := by
    induction quote, depth, s, offset using closingBraceFrom.induct with
    | case1 => rfl
    | case2 => rfl
    | case3 q depth c s offset ih => exact ih
    | case4 q depth c s offset hend hescape ih =>
        rw [closingBraceFrom.eq_4 _ _ _ _ _ hend hescape, closingBraceFrom.eq_4 _ _ _ _ _ hend hescape]
        exact ih
    | case5 depth c s offset hc ih =>
        obtain ⟨q, rfl⟩ := Quotation.exists_char hc
        rw [closingBraceFrom_quote, closingBraceFrom_quote]
        exact ih
    | case6 depth s offset _ ih =>
        rw [closingBraceFrom_open, closingBraceFrom_open]
        exact ih
    | case7 => rfl
    | case8 => rfl
    | case9 s offset depth _ _ ih => exact ih
    | case10 depth c s offset hc hopen hclose ih =>
        have hsign : c ∉ braceSigns := by simpa [braceSigns, hopen, hclose] using hc
        rw [closingBraceFrom_plain hsign, closingBraceFrom_plain hsign]
        exact ih
  exact hshift 0 offset

/-- The text that a reader of bytes sees. -/
def letters (s : List Char) : List Char := (encode s).map letter

theorem letters_append (s t : List Char) : letters (s ++ t) = letters s ++ letters t := by
  rw [letters, encode_append, List.map_append]
  rfl

theorem letters_cons (c : Char) (s : List Char) : letters (c :: s) = letters [c] ++ letters s :=
  letters_append [c] s

theorem letters_ascii {c : Char} (h : c.toNat < 0x80) : letters [c] = [c] := by
  simp only [letters, encode_cons, encode_nil, encodeChar_ascii h, List.append_nil, List.map_singleton,
    letter_byte h]

theorem length_letters (s : List Char) : (letters s).length = (encode s).length := List.length_map _

/-- The character changes nothing for a reader of braces that stands in a literal, or in none. -/
def Idle (quote : Option Char) (c : Char) : Prop :=
  match quote with
  | none => c ∉ braceSigns
  | some q => c ≠ q ∧ c ≠ '\\'

theorem closingBraceFrom_idle {quote : Option Char} {l : List Char} (h : ∀ c ∈ l, Idle quote c)
    (hquote : Quoting quote) (depth : Nat) (m : List Char) (offset : Nat) :
    closingBraceFrom quote depth (l ++ m) offset =
      closingBraceFrom quote depth m (offset + l.length) := by
  induction l generalizing offset with
  | nil => rfl
  | cons c l ih =>
      obtain ⟨hc, hl⟩ := List.forall_mem_cons.mp h
      have hrest := ih hl (offset + 1)
      have hlength : offset + (c :: l).length = offset + 1 + l.length := by
        rw [List.length_cons]
        omega
      rw [hlength, ← hrest, List.cons_append]
      cases quote with
      | none =>
          have hc : c ∉ braceSigns := hc
          rw [closingBraceFrom_plain hc]
      | some x =>
          obtain ⟨q, rfl⟩ := hquote x rfl
          rw [closingBraceFrom_quoted hc.2, if_neg hc.1]

theorem idle_letters {quote : Option Char} {c : Char} (h : Idle quote c)
    (hquote : Quoting quote) : ∀ x ∈ letters [c], Idle quote x := by
  by_cases hascii : c.toNat < 0x80
  · rw [letters_ascii hascii]
    exact List.forall_mem_singleton.mpr h
  · intro x hx
    simp only [letters, encode_cons, encode_nil, List.append_nil] at hx
    obtain ⟨b, hb, rfl⟩ := List.mem_map.mp hx
    have hbeyond := not_ascii_of_mem_encodeChar (Nat.le_of_not_lt hascii) hb
    have hinert := not_mem_braceSigns_of_not_ascii (c := letter b)
      (by rw [toNat_letter]; exact Nat.le_of_not_lt hbeyond)
    cases quote with
    | none => exact hinert.1
    | some x =>
        obtain ⟨q, rfl⟩ := hquote x rfl
        refine ⟨fun hq => hinert.1 ?_, hinert.2⟩
        rw [hq]
        exact q.mem_braceSigns

/-- A reader of the bytes finds the brace where a reader of the characters does. -/
def Agrees (quote : Option Char) (depth : Nat) (s : List Char) : Prop :=
  closingBraceFrom quote depth (letters s) 0 =
    (closingBraceFrom quote depth s 0).map fun place => (encode (s.take place)).length

theorem Agrees.step {quote quote' : Option Char} {depth depth' : Nat} {s : List Char}
    (h : Agrees quote' depth' s) (front : List Char)
    (hs : closingBraceFrom quote depth (front ++ s) 0 = closingBraceFrom quote' depth' s front.length)
    (hletters : closingBraceFrom quote depth (letters (front ++ s)) 0 =
      closingBraceFrom quote' depth' (letters s) (letters front).length) :
    Agrees quote depth (front ++ s) := by
  rw [Agrees, hs, hletters, closingBraceFrom_offset, closingBraceFrom_offset _ _ s, h, Option.map_map,
    Option.map_map]
  congr 1
  funext place
  simp only [Function.comp_apply, List.take_length_add_append, encode_append, List.length_append,
    length_letters]

theorem Agrees.sign {quote quote' : Option Char} {depth depth' : Nat} {c : Char} {s : List Char}
    (h : Agrees quote' depth' s) (hascii : c.toNat < 0x80)
    (hnext : ∀ t, closingBraceFrom quote depth (c :: t) 0 = closingBraceFrom quote' depth' t 1) :
    Agrees quote depth (c :: s) := by
  refine h.step [c] (hnext s) ?_
  rw [List.singleton_append, letters_cons, letters_ascii hascii]
  exact hnext (letters s)

theorem Agrees.idle {quote : Option Char} {depth : Nat} {c : Char} {s : List Char}
    (h : Agrees quote depth s) (hc : Idle quote c)
    (hquote : Quoting quote) : Agrees quote depth (c :: s) := by
  have hskip {l : List Char} (hl : ∀ c ∈ l, Idle quote c) (t : List Char) :
      closingBraceFrom quote depth (l ++ t) 0 = closingBraceFrom quote depth t l.length := by
    rw [closingBraceFrom_idle hl hquote, Nat.zero_add]
  refine h.step [c] (hskip (List.forall_mem_singleton.mpr hc) s) ?_
  rw [List.singleton_append, letters_cons]
  exact hskip (idle_letters hc hquote) (letters s)

/-- A reader of bytes hides the first byte of a character and passes over the others. -/
theorem Agrees.hidden {q : Quotation} {depth : Nat} {s : List Char} (h : Agrees (some q.char) depth s)
    (c : Char) : Agrees (some q.char) depth ('\\' :: c :: s) := by
  -- behind the first byte of `c` come bytes beyond ASCII, or none
  obtain ⟨x, further, hx, hfurther⟩ : ∃ x further, letters [c] = x :: further ∧
      ∀ y ∈ further, Idle (some q.char) y := by
    by_cases hascii : c.toNat < 0x80
    · exact ⟨c, [], letters_ascii hascii, List.forall_mem_nil _⟩
    · have hinert := not_mem_braceSigns_of_not_ascii (Nat.le_of_not_lt hascii)
      have hidle : Idle (some q.char) c := by
        refine ⟨fun hq => hinert.1 ?_, hinert.2⟩
        rw [hq]
        exact q.mem_braceSigns
      have hbytes := idle_letters hidle (quoting_some q)
      cases hx : letters [c] with
      | nil =>
          simp only [letters, encode_cons, encode_nil, List.append_nil, List.map_eq_nil_iff] at hx
          exact absurd hx (encodeChar_ne_nil c)
      | cons x further =>
          rw [hx] at hbytes
          exact ⟨x, further, rfl, (List.forall_mem_cons.mp hbytes).2⟩
  have hslash : letters ['\\'] = ['\\'] := rfl
  refine h.step ['\\', c] rfl ?_
  rw [List.cons_append, List.singleton_append, letters_cons, letters_cons c, letters_cons '\\' [c], hslash, hx]
  have hskip := closingBraceFrom_idle hfurther (quoting_some q) depth (letters s) 2
  refine hskip.trans ?_
  congr 1
  simp only [List.length_append, List.length_cons, List.length_nil]
  omega

theorem agrees {quote : Option Char} (depth : Nat) (s : List Char)
    (hquote : Quoting quote) : Agrees quote depth s := by
  have hall (offset : Nat) : Agrees quote depth s := by
    induction quote, depth, s, offset using closingBraceFrom.induct with
    | case1 => rfl
    | case2 => rfl
    | case3 x depth c s offset ih =>
        obtain ⟨q, rfl⟩ := hquote x rfl
        exact (ih hquote).hidden c
    | case4 x depth c s offset hend hescape ih =>
        obtain ⟨q, rfl⟩ := hquote x rfl
        have hslash := ne_backslash hend hescape
        by_cases hc : c = q.char
        · subst hc
          rw [if_pos rfl] at ih
          refine (ih quoting_none).sign q.ascii.1 fun t => ?_
          rw [closingBraceFrom_quoted hslash, if_pos rfl]
        · rw [if_neg hc] at ih
          exact (ih hquote).idle ⟨hc, hslash⟩ hquote
    | case5 depth c s offset hc ih =>
        obtain ⟨q, rfl⟩ := Quotation.exists_char hc
        exact (ih (quoting_some q)).sign q.ascii.1 fun t => closingBraceFrom_quote q depth t 0
    | case6 depth s offset _ ih =>
        exact (ih quoting_none).sign (by decide) fun t => closingBraceFrom_open depth t 0
    | case7 => rfl
    | case8 => rfl
    | case9 s offset depth _ _ ih => exact (ih quoting_none).sign (by decide) fun t => rfl
    | case10 depth c s offset hc hopen hclose ih =>
        have hsign : c ∉ braceSigns := by simpa [braceSigns, hopen, hclose] using hc
        exact (ih quoting_none).idle hsign quoting_none
  exact hall 0

/-- The bytes of a text are cut at a whole character: a reader of bytes finds the closing brace at the byte
where a reader of characters finds it. -/
theorem closingBrace?_letters (s : List Char) :
    closingBrace? (letters s) = (closingBrace? s).map fun place => (encode (s.take place)).length :=
  agrees 0 s quoting_none

end ExtensionLint.Script
