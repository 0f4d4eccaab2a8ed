/-!
Bytes as text. Reading is total: each maximal part of the input that begins no character, or cuts one
short, yields a fault in its place.
-/
namespace ExtensionLint.Text.Utf8

/-- What may follow the bytes of a character read so far. -/
structure Expected where
  /-- Bytes still missing, less one. -/
  further : Nat
  low : UInt8
  high : UInt8
  /-- Bits of the code point read so far. -/
  bits : Nat

/-- What the first byte of a character announces; `none` if it begins no longer character. -/
def Expected.ofFirst (b : UInt8) : Option Expected :=
  let n := b.toNat
  if 0xC2 ≤ n && n ≤ 0xDF then some ⟨0, 0x80, 0xBF, n % 0x20⟩
  else if n == 0xE0 then some ⟨1, 0xA0, 0xBF, 0⟩
  else if n == 0xED then some ⟨1, 0x80, 0x9F, 0xD⟩
  else if 0xE1 ≤ n && n ≤ 0xEF then some ⟨1, 0x80, 0xBF, n % 0x10⟩
  else if n == 0xF0 then some ⟨2, 0x90, 0xBF, 0⟩
  else if n == 0xF4 then some ⟨2, 0x80, 0x8F, 4⟩
  else if 0xF1 ≤ n && n ≤ 0xF3 then some ⟨2, 0x80, 0xBF, n % 8⟩
  else none

/-- Reads the first byte of a character; `none` in the output stands for a faulty part. -/
def start (b : UInt8) (done : List (Option Char)) : Option Expected × List (Option Char) :=
  if b < 0x80 then (none, some (Char.ofNat b.toNat) :: done)
  else match Expected.ofFirst b with
    | some e => (some e, done)
    | none => (none, none :: done)

def advance (state : Option Expected) (b : UInt8) (done : List (Option Char)) :
    Option Expected × List (Option Char) :=
  match state with
  | some e =>
    if e.low ≤ b && b ≤ e.high then
      let bits := e.bits * 0x40 + b.toNat % 0x40
      match e.further with
      | 0 => (none, some (Char.ofNat bits) :: done)
      | n + 1 => (some ⟨n, 0x80, 0xBF, bits⟩, done)
    else start b (none :: done)
  | none => start b done

def decodeFrom : Option Expected → List UInt8 → (done : List (Option Char)) → List (Option Char)
  | none, [], done => done.reverse
  | some _, [], done => (none :: done).reverse
  | state, b :: bytes, done =>
    let (state, done) := advance state b done
    decodeFrom state bytes done

/-- The characters that the bytes spell, with `none` for each faulty part. -/
def decode (bytes : List UInt8) : List (Option Char) := decodeFrom none bytes []

/-- The text with U+FFFD for each faulty part. -/
def decodeLossy (bytes : List UInt8) : List Char := (decode bytes).map (·.getD '\uFFFD')

/-- The text, if no part is faulty. -/
def decode? (bytes : List UInt8) : Option (List Char) := (decode bytes).mapM id

def encode (s : List Char) : List UInt8 := s.flatMap String.utf8EncodeChar

end ExtensionLint.Text.Utf8
