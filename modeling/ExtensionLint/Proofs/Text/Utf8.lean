import ExtensionLint.Text.Utf8

/-!
# Reading back what was encoded

Decoding undoes encoding (`decode_encode`). The bytes of a character beyond ASCII are all beyond ASCII.
Of bytes that are cut short, all is read as it would be without the cut, except for the character that
the cut goes through (`decode_take`).
-/

namespace ExtensionLint.Text.Utf8

/-! ## One character -/

theorem toNat_byte {n : Nat} (h : n < 256) : (UInt8.ofNat n).toNat = n := by
  rw [UInt8.toNat_ofNat']; omega

theorem start_ascii {n : Nat} (h : n ≤ 0x7F) (done : List (Option Char)) :
    start (UInt8.ofNat n) done = (none, some (Char.ofNat n) :: done) := by
  have hb := toNat_byte (show n < 256 by omega)
  have hlt : UInt8.ofNat n < 0x80 := by rw [UInt8.lt_iff_toNat_lt, hb]; simp; omega
  simp only [start, hlt, ↓reduceIte, hb]

theorem start_lead {n : Nat} (h : 0x80 ≤ n) (hn : n < 256) {e : Expected}
    (he : Expected.ofFirst (UInt8.ofNat n) = some e) (done : List (Option Char)) :
    start (UInt8.ofNat n) done = (some e, done) := by
  have hb := toNat_byte hn
  have hlt : ¬ UInt8.ofNat n < 0x80 := by rw [UInt8.lt_iff_toNat_lt, hb]; simp; omega
  simp only [start, hlt, ↓reduceIte, he]

theorem advance_some {e : Expected} {n : Nat} (hn : n < 256) (hlow : e.low.toNat ≤ n)
    (hhigh : n ≤ e.high.toNat) (done : List (Option Char)) :
    advance (some e) (UInt8.ofNat n) done =
      match e.further with
      | 0 => (none, some (Char.ofNat (e.bits * 0x40 + n % 0x40)) :: done)
      | k + 1 => (some ⟨k, 0x80, 0xBF, e.bits * 0x40 + n % 0x40⟩, done) := by
  have hb := toNat_byte hn
  have hbounds : (e.low ≤ UInt8.ofNat n && UInt8.ofNat n ≤ e.high) = true := by
    simp only [UInt8.le_iff_toNat_le, hb, hlow, hhigh, decide_true, Bool.and_self]
  cases hfurther : e.further <;> simp only [advance, hbounds, hfurther, ↓reduceIte, hb]

theorem ofFirst_eq {n : Nat} (hn : n < 256) : Expected.ofFirst (UInt8.ofNat n) =
    if 0xC2 ≤ n && n ≤ 0xDF then some ⟨0, 0x80, 0xBF, n % 0x20⟩
    else if n == 0xE0 then some ⟨1, 0xA0, 0xBF, 0⟩
    else if n == 0xED then some ⟨1, 0x80, 0x9F, 0xD⟩
    else if 0xE1 ≤ n && n ≤ 0xEF then some ⟨1, 0x80, 0xBF, n % 0x10⟩
    else if n == 0xF0 then some ⟨2, 0x90, 0xBF, 0⟩
    else if n == 0xF4 then some ⟨2, 0x80, 0x8F, 4⟩
    else if 0xF1 ≤ n && n ≤ 0xF3 then some ⟨2, 0x80, 0xBF, n % 8⟩
    else none := by
  simp only [Expected.ofFirst, toNat_byte hn]

/-! The first byte of a character of two, three or four bytes, and what it leaves to the second. -/

theorem ofFirst_two {v : Nat} (h : 0x7F < v) (h' : v ≤ 0x7FF) :
    Expected.ofFirst (UInt8.ofNat (v / 64 % 0x20 + 0xC0)) = some ⟨0, 0x80, 0xBF, v / 64⟩ := by
  rw [ofFirst_eq (by omega)]
  grind

theorem ofFirst_three {v : Nat} (h : 0x7FF < v) (h' : v ≤ 0xFFFF) (hs : v < 0xD800 ∨ 0xDFFF < v) :
    ∃ low high, Expected.ofFirst (UInt8.ofNat (v / 4096 % 0x10 + 0xE0)) =
        some ⟨1, low, high, v / 4096⟩ ∧
      low.toNat ≤ v / 64 % 0x40 + 0x80 ∧ v / 64 % 0x40 + 0x80 ≤ high.toNat := by
  rw [ofFirst_eq (by omega)]
  by_cases hlow : v < 0x1000
  · exact ⟨0xA0, 0xBF, by grind, by simp; omega, by simp; omega⟩
  · by_cases hsurrogate : 0xD000 ≤ v ∧ v < 0xE000
    · exact ⟨0x80, 0x9F, by grind, by simp, by simp; omega⟩
    · exact ⟨0x80, 0xBF, by grind, by simp, by simp; omega⟩

theorem ofFirst_four {v : Nat} (h : 0xFFFF < v) (h' : v < 0x110000) :
    ∃ low high, Expected.ofFirst (UInt8.ofNat (v / 262144 % 0x08 + 0xF0)) =
        some ⟨2, low, high, v / 262144⟩ ∧
      low.toNat ≤ v / 4096 % 0x40 + 0x80 ∧ v / 4096 % 0x40 + 0x80 ≤ high.toNat := by
  rw [ofFirst_eq (by omega)]
  by_cases hlow : v < 0x40000
  · exact ⟨0x90, 0xBF, by grind, by simp; omega, by simp; omega⟩
  · by_cases hhigh : 0x100000 ≤ v
    · exact ⟨0x80, 0x8F, by grind, by simp, by simp; omega⟩
    · exact ⟨0x80, 0xBF, by grind, by simp, by simp; omega⟩

theorem encodeChar_eq (c : Char) : String.utf8EncodeChar c =
    if c.toNat ≤ 0x7F then [UInt8.ofNat c.toNat]
    else if c.toNat ≤ 0x7FF then
      [UInt8.ofNat (c.toNat / 64 % 0x20 + 0xC0), UInt8.ofNat (c.toNat % 0x40 + 0x80)]
    else if c.toNat ≤ 0xFFFF then
      [UInt8.ofNat (c.toNat / 4096 % 0x10 + 0xE0), UInt8.ofNat (c.toNat / 64 % 0x40 + 0x80),
        UInt8.ofNat (c.toNat % 0x40 + 0x80)]
    else
      [UInt8.ofNat (c.toNat / 262144 % 0x08 + 0xF0), UInt8.ofNat (c.toNat / 4096 % 0x40 + 0x80),
        UInt8.ofNat (c.toNat / 64 % 0x40 + 0x80), UInt8.ofNat (c.toNat % 0x40 + 0x80)] := rfl

/-- Decoding takes in a character whole. -/
theorem decodeFrom_encodeChar (c : Char) (rest : List UInt8) (done : List (Option Char)) :
    decodeFrom none (String.utf8EncodeChar c ++ rest) done = decodeFrom none rest (some c :: done) := by
  have hvalid : c.toNat < 0xD800 ∨ 0xDFFF < c.toNat ∧ c.toNat < 0x110000 := c.valid
  have hc := Char.ofNat_toNat c
  rw [encodeChar_eq]
  generalize c.toNat = v at hvalid hc
  have hlead : ∀ b done, advance none b done = start b done := fun _ _ => rfl
  split
  · rename_i h
    simp only [List.cons_append, List.nil_append, decodeFrom, hlead, start_ascii h, hc]
  split
  · rename_i h h'
    simp only [List.cons_append, List.nil_append, decodeFrom, hlead]
    rw [start_lead (by omega) (by omega) (ofFirst_two (by omega) h'),
      advance_some (by omega) (by simp) (by simp; omega)]
    rw [show v / 64 * 0x40 + (v % 0x40 + 0x80) % 0x40 = v by omega, hc]
  split
  · rename_i h h' h''
    obtain ⟨low, high, hfirst, hlow, hhigh⟩ :=
      ofFirst_three (v := v) (by omega) h'' (by omega)
    simp only [List.cons_append, List.nil_append, decodeFrom, hlead]
    rw [start_lead (by omega) (by omega) hfirst, advance_some (by omega) hlow hhigh]
    dsimp only
    rw [advance_some (by omega) (by simp) (by simp; omega)]
    dsimp only
    rw [show (v / 4096 * 0x40 + (v / 64 % 0x40 + 0x80) % 0x40) * 0x40 + (v % 0x40 + 0x80) % 0x40 = v
      by omega, hc]
  · rename_i h h' h''
    obtain ⟨low, high, hfirst, hlow, hhigh⟩ := ofFirst_four (v := v) (by omega) (by omega)
    simp only [List.cons_append, List.nil_append, decodeFrom, hlead]
    rw [start_lead (by omega) (by omega) hfirst, advance_some (by omega) hlow hhigh]
    dsimp only
    rw [advance_some (by omega) (by simp) (by simp; omega)]
    dsimp only
    rw [advance_some (by omega) (by simp) (by simp; omega)]
    dsimp only
    rw [show ((v / 262144 * 0x40 + (v / 4096 % 0x40 + 0x80) % 0x40) * 0x40 +
      (v / 64 % 0x40 + 0x80) % 0x40) * 0x40 + (v % 0x40 + 0x80) % 0x40 = v by omega, hc]

/-! ## Texts -/

theorem encode_nil : encode [] = [] := rfl

theorem encode_cons (c : Char) (s : List Char) :
    encode (c :: s) = String.utf8EncodeChar c ++ encode s := rfl

theorem encode_append (s t : List Char) : encode (s ++ t) = encode s ++ encode t := by
  simp only [encode, List.flatMap_append]

theorem decodeFrom_encode (s : List Char) (done : List (Option Char)) :
    decodeFrom none (encode s) done = done.reverse ++ s.map some := by
  induction s generalizing done with
  | nil => simp [encode, decodeFrom]
  | cons c s ih =>
      rw [encode_cons, decodeFrom_encodeChar, ih]
      simp

theorem decode_encode (s : List Char) : decode (encode s) = s.map some := by
  rw [decode, decodeFrom_encode, List.reverse_nil, List.nil_append]

theorem decode?_encode (s : List Char) : decode? (encode s) = some s := by
  rw [decode?, decode_encode]
  induction s with
  | nil => rfl
  | cons c s ih => simp_all

theorem decodeLossy_encode (s : List Char) : decodeLossy (encode s) = s := by
  simp [decodeLossy, decode_encode, Function.comp_def]

/-! ## ASCII and beyond -/

/-- Bytes that are characters of their own. -/
abbrev Ascii (b : UInt8) : Prop := b.toNat < 0x80

theorem encodeChar_ascii {c : Char} (h : c.toNat < 0x80) :
    String.utf8EncodeChar c = [UInt8.ofNat c.toNat] := by
  rw [encodeChar_eq, if_pos (by omega)]

theorem encodeChar_ofNat {b : UInt8} (h : Ascii b) :
    String.utf8EncodeChar (Char.ofNat b.toNat) = [b] := by
  have hvalid : b.toNat.isValidChar := .inl (by omega)
  have hc : (Char.ofNat b.toNat).toNat = b.toNat := by
    rw [Char.ofNat, dif_pos hvalid]
    rfl
  rw [encodeChar_ascii (by omega), hc, UInt8.ofNat_toNat]

theorem not_ascii_of_mem_encodeChar {c : Char} (h : 0x80 ≤ c.toNat) {b : UInt8}
    (hb : b ∈ String.utf8EncodeChar c) : ¬ Ascii b := by
  rw [encodeChar_eq, if_neg (by omega)] at hb
  have hbyte : ∀ n, n < 128 → b = UInt8.ofNat (n + 0x80) → ¬ Ascii b := by
    rintro n hn rfl
    rw [Ascii, toNat_byte (by omega)]
    omega
  split at hb
  · simp only [List.mem_cons, List.not_mem_nil, or_false] at hb
    rcases hb with h1 | h2
    · exact hbyte (c.toNat / 64 % 0x20 + 0x40) (by omega) h1
    · exact hbyte (c.toNat % 0x40) (by omega) h2
  split at hb
  · simp only [List.mem_cons, List.not_mem_nil, or_false] at hb
    rcases hb with h1 | h2 | h3
    · exact hbyte (c.toNat / 4096 % 0x10 + 0x60) (by omega) h1
    · exact hbyte (c.toNat / 64 % 0x40) (by omega) h2
    · exact hbyte (c.toNat % 0x40) (by omega) h3
  · simp only [List.mem_cons, List.not_mem_nil, or_false] at hb
    rcases hb with h1 | h2 | h3 | h4
    · exact hbyte (c.toNat / 262144 % 0x08 + 0x70) (by omega) h1
    · exact hbyte (c.toNat / 4096 % 0x40) (by omega) h2
    · exact hbyte (c.toNat / 64 % 0x40) (by omega) h3
    · exact hbyte (c.toNat % 0x40) (by omega) h4

theorem encodeChar_ne_nil (c : Char) : String.utf8EncodeChar c ≠ [] := by
  rw [encodeChar_eq]
  repeat' split
  all_goals exact List.cons_ne_nil _ _

/-! ## Bytes that spell a text -/

/-- The bytes spell a text. -/
def Valid (bytes : List UInt8) : Prop := ∃ s, encode s = bytes

theorem valid_encode (s : List Char) : Valid (encode s) := ⟨s, rfl⟩

theorem valid_encodeChar (c : Char) : Valid (String.utf8EncodeChar c) :=
  ⟨[c], by rw [encode_cons, encode_nil, List.append_nil]⟩

theorem Valid.append {front behind : List UInt8} (hfront : Valid front) (hbehind : Valid behind) :
    Valid (front ++ behind) := by
  obtain ⟨s, rfl⟩ := hfront
  obtain ⟨t, rfl⟩ := hbehind
  exact ⟨s ++ t, encode_append s t⟩

theorem valid_of_ascii {bytes : List UInt8} (h : ∀ b ∈ bytes, Ascii b) : Valid bytes := by
  induction bytes with
  | nil => exact ⟨[], rfl⟩
  | cons b bytes ih =>
      rw [← List.singleton_append, ← encodeChar_ofNat (h b List.mem_cons_self)]
      exact (valid_encodeChar _).append (ih fun x hx => h x (List.mem_cons_of_mem b hx))

/-- A character begins at the start of a text; `cut` is what is left of it after its first byte. -/
theorem Valid.of_cons {b : UInt8} {bytes : List UInt8} (h : Valid (b :: bytes)) :
    ∃ cut rest, bytes = cut ++ rest ∧ Valid rest ∧ Valid (b :: cut) ∧
      (Ascii b ∧ cut = [] ∨ ∀ x ∈ b :: cut, ¬ Ascii x) := by
  obtain ⟨s, hs⟩ := h
  cases s with
  | nil => cases hs
  | cons c s =>
      rw [encode_cons] at hs
      cases hc : String.utf8EncodeChar c with
      | nil => exact absurd hc (encodeChar_ne_nil c)
      | cons first cut =>
          rw [hc, List.cons_append] at hs
          cases hs
          refine ⟨cut, encode s, rfl, valid_encode s, hc ▸ valid_encodeChar c, ?_⟩
          by_cases hascii : c.toNat < 0x80
          · rw [encodeChar_ascii hascii] at hc
            cases hc
            exact .inl ⟨by rw [Ascii, toNat_byte (by omega)]; exact hascii, rfl⟩
          · exact .inr fun x hx => not_ascii_of_mem_encodeChar (by omega) (hc ▸ hx)

theorem Valid.of_ascii_append {front behind : List UInt8} (hfront : ∀ b ∈ front, Ascii b)
    (h : Valid (front ++ behind)) : Valid behind := by
  induction front with
  | nil => exact h
  | cons b front ih =>
      obtain ⟨cut, rest, heq, hrest, _, hkind⟩ := h.of_cons
      have hcut : cut = [] := by
        rcases hkind with ⟨_, hcut⟩ | hbeyond
        · exact hcut
        · exact absurd (hfront b List.mem_cons_self) (hbeyond b List.mem_cons_self)
      rw [hcut, List.nil_append, List.append_eq] at heq
      exact ih (fun x hx => hfront x (List.mem_cons_of_mem b hx)) (by rw [heq]; exact hrest)

/-! ## Bytes that are cut short -/

theorem advance_done (state : Option Expected) (b : UInt8) (done : List (Option Char)) :
    advance state b done = ((advance state b []).1, (advance state b []).2 ++ done) := by
  have hstart (done : List (Option Char)) :
      start b done = ((start b []).1, (start b []).2 ++ done) := by
    unfold start
    split
    · rfl
    · split <;> rfl
  cases state with
  | none => exact hstart done
  | some e =>
      simp only [advance]
      split
      · split <;> rfl
      · rw [hstart, hstart [none]]
        simp

theorem decodeFrom_cons (state : Option Expected) (b : UInt8) (bytes : List UInt8)
    (done : List (Option Char)) :
    decodeFrom state (b :: bytes) done =
      decodeFrom (advance state b []).1 bytes ((advance state b []).2 ++ done) := by
  rw [decodeFrom, advance_done]

theorem decodeFrom_done (state : Option Expected) (bytes : List UInt8) (done : List (Option Char)) :
    decodeFrom state bytes done = done.reverse ++ decodeFrom state bytes [] := by
  induction bytes generalizing state done with
  | nil => cases state <;> simp [decodeFrom]
  | cons b bytes ih =>
      rw [decodeFrom_cons, ih, decodeFrom_cons, ih _ ((advance state b []).2 ++ [])]
      simp

/-- What is read of the front does not depend on what is behind it. -/
theorem exists_decodeFrom_append (state : Option Expected) (front : List UInt8) :
    ∃ state' read, ∀ behind,
      decodeFrom state (front ++ behind) [] = read ++ decodeFrom state' behind [] := by
  induction front generalizing state with
  | nil => exact ⟨state, [], fun behind => rfl⟩
  | cons b front ih =>
      obtain ⟨state', read, h⟩ := ih (advance state b []).1
      refine ⟨state', (advance state b []).2.reverse ++ read, fun behind => ?_⟩
      rw [List.cons_append, decodeFrom_cons, decodeFrom_done, h, List.append_nil, List.append_assoc]

/-- A cut leaves at most one faulty part, at the end. -/
theorem decode_take (bytes : List UInt8) (n : Nat) :
    ∃ read cut rest, decode (bytes.take n) = read ++ cut ∧ decode bytes = read ++ rest ∧
      (cut = [] ∨ cut = [none]) := by
  obtain ⟨state, read, h⟩ := exists_decodeFrom_append none (bytes.take n)
  refine ⟨read, decodeFrom state [] [], decodeFrom state (bytes.drop n) [], ?_, ?_, ?_⟩
  · rw [decode, ← h, List.append_nil]
  · rw [decode, ← h, List.take_append_drop]
  · cases state with
    | none => exact .inl rfl
    | some e => exact .inr rfl

/-- The text without a last character that may stand for one that was cut. -/
def withoutCut (s : List Char) : List Char :=
  if s.getLast? = some '\uFFFD' then s.dropLast else s

theorem isPrefix_withoutCut (s : List Char) : withoutCut s <+: s := by
  unfold withoutCut
  split
  · exact s.dropLast_prefix
  · exact List.prefix_refl s

theorem isPrefix_withoutCut_take (bytes : List UInt8) (n : Nat) :
    withoutCut (decodeLossy (bytes.take n)) <+: decodeLossy bytes := by
  obtain ⟨read, cut, rest, htake, hall, hcut⟩ := decode_take bytes n
  have hread : read.map (·.getD '\uFFFD') <+: decodeLossy bytes :=
    ⟨rest.map (·.getD '\uFFFD'), by rw [decodeLossy, hall, List.map_append]⟩
  rcases hcut with rfl | rfl
  · rw [decodeLossy, htake, List.append_nil]
    exact (isPrefix_withoutCut _).trans hread
  · rw [decodeLossy, htake, List.map_append]
    simpa [withoutCut] using hread

end ExtensionLint.Text.Utf8
