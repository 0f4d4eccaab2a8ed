import ExtensionLint.Text.Lines
import ExtensionLint.Proofs.Text.Utf8

/-!
# Physical lines, seen in the bytes

How long the lines of a text are can be read off its bytes (`map_size_physicalLines`); only the bytes
for CR and LF matter.
-/

namespace ExtensionLint.Text

open Utf8

/-- How many bytes a text takes. -/
def size (s : List Char) : Nat := (encode s).length

/-- The sizes of the lines in a text, from its bytes; `begun` is the size of the line already read, and
`cr` tells whether a CR has just ended one. -/
def lineSizes : (cr : Bool) → (begun : Nat) → List UInt8 → List Nat
  | _, begun, [] => [begun]
  | cr, begun, b :: bytes =>
    if b = 0x0A then
      if cr then lineSizes false 0 bytes else begun :: lineSizes false 0 bytes
    else if b = 0x0D then begun :: lineSizes true 0 bytes
    else lineSizes false (begun + 1) bytes

theorem size_cons (c : Char) (s : List Char) :
    size (c :: s) = (String.utf8EncodeChar c).length + size s := by
  rw [size, encode_cons, List.length_append, size]

theorem size_append (s t : List Char) : size (s ++ t) = size s + size t := by
  rw [size, encode_append, List.length_append]
  rfl

theorem size_reverse (s : List Char) : size s.reverse = size s := by
  induction s with
  | nil => rfl
  | cons c s ih =>
      rw [List.reverse_cons, size_append, ih, size_cons, size_cons, Nat.add_comm]
      rfl

/-! ## Line ends in the bytes of a character -/

theorem encodeChar_eq_singleton {c : Char} {b : UInt8} (hb : Ascii b)
    (h : b ∈ String.utf8EncodeChar c) : c = Char.ofNat b.toNat := by
  by_cases hascii : c.toNat < 0x80
  · rw [encodeChar_ascii hascii, List.mem_singleton] at h
    rw [h, toNat_byte (by omega), Char.ofNat_toNat]
  · exact absurd hb (not_ascii_of_mem_encodeChar (by omega) h)

/-- An ASCII byte stands for a character of its own. -/
theorem ascii_mem_encode_iff {s : List Char} {b : UInt8} (hb : Ascii b) :
    b ∈ encode s ↔ Char.ofNat b.toNat ∈ s := by
  rw [encode, List.mem_flatMap]
  constructor
  · rintro ⟨c, hc, hbc⟩
    rwa [encodeChar_eq_singleton hb hbc] at hc
  · intro h
    refine ⟨_, h, ?_⟩
    rw [encodeChar_ofNat hb]
    exact List.mem_singleton_self b

/-- Where the byte of an ASCII character stands, this character begins. -/
theorem exists_of_ascii_getElem? {s : List Char} {c : Char} {place : Nat} (hc : c.toNat < 0x80)
    (h : (encode s)[place]? = some (UInt8.ofNat c.toNat)) :
    ∃ front behind, s = front ++ c :: behind ∧ size front = place := by
  have hb : Ascii (UInt8.ofNat c.toNat) := by rwa [Ascii, toNat_byte (by omega)]
  induction s generalizing place with
  | nil => cases h
  | cons x s ih =>
      rw [encode_cons] at h
      by_cases hplace : place < (String.utf8EncodeChar x).length
      · rw [List.getElem?_append_left hplace] at h
        have hx := encodeChar_eq_singleton hb (List.mem_of_getElem? h)
        rw [toNat_byte (by omega), Char.ofNat_toNat] at hx
        rw [hx, encodeChar_ascii hc, List.length_singleton, Nat.lt_one_iff] at hplace
        exact ⟨[], s, by rw [hx, List.nil_append], hplace.symm⟩
      · have hle := Nat.le_of_not_lt hplace
        rw [List.getElem?_append_right hle] at h
        obtain ⟨front, behind, rfl, hsize⟩ := ih h
        refine ⟨x :: front, behind, rfl, ?_⟩
        rw [size_cons, hsize, Nat.add_sub_cancel' hle]

theorem not_mem_of_not_isLineBreak {c : Char} (h : isLineBreak c = false) :
    ∀ b ∈ String.utf8EncodeChar c, b ≠ 0x0A ∧ b ≠ 0x0D := by
  intro b hb
  constructor
  · rintro rfl
    rw [encodeChar_eq_singleton (by decide) hb] at h
    cases h
  · rintro rfl
    rw [encodeChar_eq_singleton (by decide) hb] at h
    cases h

theorem lineSizes_append {front : List UInt8} (hfront : ∀ b ∈ front, b ≠ 0x0A ∧ b ≠ 0x0D)
    (begun : Nat) (bytes : List UInt8) :
    lineSizes false begun (front ++ bytes) = lineSizes false (begun + front.length) bytes := by
  induction front generalizing begun with
  | nil => rfl
  | cons b front ih =>
      obtain ⟨hlf, hcr⟩ := hfront b List.mem_cons_self
      rw [List.cons_append, lineSizes, if_neg hlf, if_neg hcr,
        ih (fun x hx => hfront x (List.mem_cons_of_mem b hx)), List.length_cons]
      congr 1
      omega

/-- A CR and what does not begin with an LF do not make one line end. -/
theorem lineSizes_cr {s : List Char} (h : ∀ t, s ≠ '\n' :: t) (begun : Nat) :
    lineSizes true begun (encode s) = lineSizes false begun (encode s) := by
  cases hs : encode s with
  | nil => rfl
  | cons b bytes =>
      have hlf : b ≠ 0x0A := by
        rintro rfl
        cases s with
        | nil => cases hs
        | cons c s =>
            cases hc : String.utf8EncodeChar c with
            | nil => exact encodeChar_ne_nil c hc
            | cons first cut =>
                rw [encode_cons, hc, List.cons_append] at hs
                cases hs
                have hmem : (0x0A : UInt8) ∈ String.utf8EncodeChar c := hc ▸ List.mem_cons_self
                rw [encodeChar_eq_singleton (by decide) hmem] at h
                exact h s rfl
      rw [lineSizes, lineSizes, if_neg hlf, if_neg hlf]

/-! ## Lines -/

theorem map_size_cutLines (s line : List Char) (done : List (List Char)) :
    (cutLines s line done).map size =
      (done.map size).reverse ++ lineSizes false (size line) (encode s) := by
  induction s, line, done using cutLines.induct with
  | case1 line done =>
      rw [cutLines, List.map_reverse, List.map_cons, List.reverse_cons, size_reverse]
      rfl
  | case2 s line done ih =>
      rw [cutLines, ih, List.map_cons, List.reverse_cons, size_reverse, List.append_assoc]
      rfl
  | case3 c s line done hcrlf hbreak ih =>
      rw [cutLines.eq_3 _ _ _ _ hcrlf, if_pos hbreak, ih, List.map_cons, List.reverse_cons,
        size_reverse, List.append_assoc]
      simp only [isLineBreak, Bool.or_eq_true, beq_iff_eq] at hbreak
      rcases hbreak with rfl | rfl
      · rfl
      · exact congrArg (fun sizes => _ ++ size line :: sizes) (lineSizes_cr (hcrlf · rfl) 0).symm
  | case4 c s line done hcrlf hbreak ih =>
      rw [cutLines.eq_3 _ _ _ _ hcrlf, if_neg hbreak, ih, encode_cons,
        lineSizes_append (not_mem_of_not_isLineBreak (by simpa using hbreak)), size_cons, Nat.add_comm]

/-- The sizes of the physical lines of a text. -/
theorem map_size_physicalLines (s : List Char) :
    (physicalLines s).map size = lineSizes false 0 (encode s) :=
  map_size_cutLines s [] []

end ExtensionLint.Text
