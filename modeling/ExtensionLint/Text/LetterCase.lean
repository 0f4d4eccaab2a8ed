import ExtensionLint.Text.Casing

/-!
Letter case beyond ASCII: lower-case texts, and the representative that letters equal up to case
share (simple case folding).
-/
namespace ExtensionLint.Text

def shift (c : Char) (offset : Int) : Char := Char.ofNat (c.toNat + offset).toNat

/-- The single lower-case partner of a letter, or the character itself. -/
def lower (c : Char) : Char :=
  if c.toNat < 0x80 then c.toLower
  else match lowerRuns.find? (·.has c.toNat) with
    | some run => shift c run.offset
    | none => c

/-- Representatives of lower-case letters that are equal, up to case, to another lower-case letter. -/
def foldExceptions : List (Nat × Nat) := [
  (0xB5, 0x3BC), (0x17F, 0x73), (0x345, 0x3B9), (0x1FBE, 0x3B9), (0x1FD3, 0x390), (0x1FE3, 0x3B0),
  (0x3D0, 0x3B2), (0x3D1, 0x3B8), (0x3D5, 0x3C6), (0x3D6, 0x3C0), (0x3C2, 0x3C3), (0x3F0, 0x3BA),
  (0x3F1, 0x3C1), (0x3F5, 0x3B5), (0x1C80, 0x432), (0x1C81, 0x434), (0x1C82, 0x43E),
  (0x1C83, 0x441), (0x1C84, 0x442), (0x1C85, 0x442), (0x1C86, 0x44A), (0x1C87, 0x463),
  (0x1C88, 0xA64B), (0x1E9B, 0x1E61), (0xFB05, 0xFB06)]

/-- Capitals whose lower-case partners came with Unicode 17. Case folding is that of Unicode 16 and
does not pair them. -/
def unfoldedCapitals : Ranges := [
  (0xA7CE, 0xA7CE), (0xA7D2, 0xA7D2), (0xA7D4, 0xA7D4), (0x16EA0, 0x16EB8)]

/-- Two characters are equal up to case exactly if they have the same representative. -/
def fold (c : Char) : Char :=
  let l := if unfoldedCapitals.has c.toNat then c else lower c
  if l.toNat < 0x80 then l
  else match foldExceptions.lookup l.toNat with
    | some n => Char.ofNat n
    | none => l

/-- Whether the first character that is not case-ignorable is a cased letter. -/
def meetsCased : List Char → Bool
  | [] => false
  | c :: s =>
    if caseIgnorableRanges.has c.toNat then meetsCased s else casedRanges.has c.toNat

/-- Lowers a text; `before` holds, reversed, the characters already read. A capital sigma at the end
of a word becomes a final sigma, and a dotted capital I keeps its dot as a mark of its own. -/
def lowerFrom (before : List Char) : List Char → (done : List Char) → List Char
  | [], done => done.reverse
  | c :: s, done =>
    if c == 'Σ' then
      let sigma := if meetsCased before && !meetsCased s then 'ς' else 'σ'
      lowerFrom (c :: before) s (sigma :: done)
    else if c == 'İ' then lowerFrom (c :: before) s ('\u0307' :: 'i' :: done)
    else lowerFrom (c :: before) s (lower c :: done)

def lowered (s : String) : String := String.ofList (lowerFrom [] s.toList [])

end ExtensionLint.Text
