import ExtensionLint.Text.Blank
import ExtensionLint.Text.Utf8

/-!
Cleaning of scripts. A scanner goes over the bytes of a script and tells code, comments and the markup
around the code apart. It writes what it reads, and spaces for what is to be hidden; line ends always
stay. How far one step gets differs from step to step: tags and comment marks are read whole, and some
steps only change what is read next.
-/
namespace ExtensionLint.Script

open Text

/-- A script that cannot be read: it ends inside the opener of a quoted heredoc, right after the
label. -/
inductive ScriptFault
  | unclosedOpener
  deriving DecidableEq, Repr

/-- Which parts of a script are hidden. -/
structure Blanking where
  comments : Bool
  markup : Bool
  deriving DecidableEq, Repr

def Blanking.all : Blanking := ⟨true, true⟩

def Blanking.commentsOnly : Blanking := ⟨true, false⟩

/-- The byte for an ASCII character. -/
def byte (c : Char) : UInt8 := UInt8.ofNat c.toNat

def mark (s : String) : List UInt8 := s.toList.map byte

def isLineEnd (b : UInt8) : Bool := b == byte '\n' || b == byte '\r'

def isLabelByte (b : UInt8) : Bool :=
  (byte '0' ≤ b && b ≤ byte '9') || (byte 'A' ≤ b && b ≤ byte 'Z') ||
    (byte 'a' ≤ b && b ≤ byte 'z') || b == byte '_'

/-- Blanks that may stand before a label. -/
def isIndent (b : UInt8) : Bool := b == byte ' ' || b == byte '\t'

def isQuote (b : UInt8) : Bool := b == byte '\'' || b == byte '"' || b == byte '`'

def lowerByte (b : UInt8) : UInt8 := if byte 'A' ≤ b && b ≤ byte 'Z' then b + 0x20 else b

/-- A byte as it is written. -/
def shown (hidden : Bool) (b : UInt8) : UInt8 :=
  if hidden && !isLineEnd b then byte ' ' else b

/-- The size of the open tag at the start of a text that begins with `<?`. -/
def openTagSize (text : List UInt8) : Nat :=
  if (text.take 5).map lowerByte = mark "<?php" then 5
  else if (mark "<?=").isPrefixOf text then 3
  else 2

structure Opener where
  label : List UInt8
  size : Nat

/-- The opener of a heredoc at the start of a text: a label, or a label after a quote and before one
more byte, which is counted unseen. -/
def opener? (text : List UInt8) : Option Opener :=
  ((mark "<<<").isPrefixOf? text).bind fun inner =>
    let indent := (inner.takeWhile isIndent).length
    let named := inner.dropWhile isIndent
    let quote := if named.head?.any (fun b => b == byte '\'' || b == byte '"') then 1 else 0
    let label := (named.drop quote).takeWhile isLabelByte
    if label.isEmpty then none else some ⟨label, 3 + indent + quote + label.length + quote⟩

/-- The size of the closing label of a heredoc, with its indentation, at the start of a text. -/
def closer? (label text : List UInt8) : Option Nat :=
  let indent := (text.takeWhile isIndent).length
  (label.isPrefixOf? (text.dropWhile isIndent)).bind fun behind =>
    if behind.head?.any isLabelByte then none else some (indent + label.length)

/-- What the scanner is in the middle of. -/
inductive State
  | markup
  | code
  | lineComment
  | blockComment
  /-- Inside a literal that the given quote closes. -/
  | literal (quote : UInt8)
  | heredoc (label : List UInt8)
  deriving DecidableEq, Repr

structure Step where
  written : List UInt8
  /-- How many bytes the scanner moves on by. -/
  taken : Nat
  next : State

/-- The step at the byte `b`, with `tail` behind it and `last` before it. -/
def State.step (o : Blanking) (last : Option UInt8) (b : UInt8) (tail : List UInt8) :
    State → Except ScriptFault Step
  | .markup =>
    if (mark "<?").isPrefixOf (b :: tail) then
      let size := openTagSize (b :: tail)
      .ok ⟨(b :: tail).take size, size, .code⟩
    else .ok ⟨[shown o.markup b], 1, .markup⟩
  | .code =>
    if (mark "?>").isPrefixOf (b :: tail) then .ok ⟨mark "?>", 2, .markup⟩
    else if (mark "//").isPrefixOf (b :: tail) || (b == byte '#' && tail.head? != some (byte '[')) then
      .ok ⟨[], 0, .lineComment⟩
    else if (mark "/*").isPrefixOf (b :: tail) then
      .ok ⟨(mark "/*").map (shown o.comments), 2, .blockComment⟩
    else match opener? (b :: tail) with
      | some opener =>
        if opener.size ≤ (b :: tail).length then
          .ok ⟨(b :: tail).take opener.size, opener.size, .heredoc opener.label⟩
        else .error .unclosedOpener
      | none => .ok ⟨[b], 1, if isQuote b then .literal b else .code⟩
  | .lineComment =>
    if isLineEnd b then .ok ⟨[b], 1, .code⟩
    else if (mark "?>").isPrefixOf (b :: tail) then .ok ⟨[], 0, .code⟩
    else .ok ⟨[shown o.comments b], 1, .lineComment⟩
  | .blockComment =>
    if (mark "*/").isPrefixOf (b :: tail) then .ok ⟨(mark "*/").map (shown o.comments), 2, .code⟩
    else .ok ⟨[shown o.comments b], 1, .blockComment⟩
  | .literal quote =>
    if b == byte '\\' && !tail.isEmpty then .ok ⟨(b :: tail).take 2, 2, .literal quote⟩
    else .ok ⟨[b], 1, if b == quote then .code else .literal quote⟩
  | .heredoc label =>
    match if last.all isLineEnd then closer? label (b :: tail) else none with
    | some size => .ok ⟨(b :: tail).take size, size, .code⟩
    | none => .ok ⟨[b], 1, .heredoc label⟩

/-- Bounds the steps that the scanner can take in a row without moving on. -/
def State.delay (text : List UInt8) : State → Nat
  | .code => if (mark "?>").isPrefixOf text then 0 else 1
  | .lineComment => if (mark "?>").isPrefixOf text then 1 else 0
  | .heredoc _ => 2
  | _ => 0

theorem openTagSize_pos (text : List UInt8) : 0 < openTagSize text := by
  unfold openTagSize
  split
  · decide
  · split <;> decide

theorem opener?_size_pos {text : List UInt8} {opener : Opener} (h : opener? text = some opener) :
    0 < opener.size := by
  simp only [opener?, Option.bind_eq_some_iff, Option.ite_none_left_eq_some, Option.some.injEq] at h
  obtain ⟨inner, _, _, rfl⟩ := h
  dsimp only
  omega

/-- A step that does not move on leaves less delay than there was. -/
theorem State.step_moves {o : Blanking} {last : Option UInt8} {b : UInt8} {tail : List UInt8}
    {state : State} {r : Step} (h : state.step o last b tail = .ok r) :
    0 < r.taken ∨ r.next.delay (b :: tail) < state.delay (b :: tail) := by
  cases state with
  | markup =>
      simp only [step] at h
      split at h <;> cases h
      · exact Or.inl (openTagSize_pos _)
      · exact Or.inl Nat.one_pos
  | code =>
      simp only [step] at h
      split at h
      · cases h; exact Or.inl Nat.two_pos
      rename_i hclose
      split at h
      · cases h; right; simp [delay, hclose]
      split at h
      · cases h; exact Or.inl Nat.two_pos
      split at h
      · rename_i opener hopener
        split at h <;> cases h
        exact Or.inl (opener?_size_pos hopener)
      · cases h; exact Or.inl Nat.one_pos
  | lineComment =>
      simp only [step] at h
      split at h
      · cases h; exact Or.inl Nat.one_pos
      split at h <;> cases h
      · rename_i hclose; right; simp [delay, hclose]
      · exact Or.inl Nat.one_pos
  | blockComment =>
      simp only [step] at h
      split at h <;> cases h
      · exact Or.inl Nat.two_pos
      · exact Or.inl Nat.one_pos
  | literal quote =>
      simp only [step] at h
      split at h <;> cases h
      · exact Or.inl Nat.two_pos
      · exact Or.inl Nat.one_pos
  | heredoc label =>
      simp only [step] at h
      split at h <;> cases h
      · right; simp only [delay]; split <;> decide
      · exact Or.inl Nat.one_pos

/-- Goes over a text; `out` holds, reversed, what has been written. -/
def scanFrom (o : Blanking) (state : State) (last : Option UInt8) (text out : List UInt8) :
    Except ScriptFault (List UInt8) :=
  match text with
  | [] => .ok out.reverse
  | b :: tail =>
    match _h : state.step o last b tail with
    | .error fault => .error fault
    | .ok r =>
      scanFrom o r.next (((b :: tail).take r.taken).getLast?.or last) ((b :: tail).drop r.taken)
        (r.written.reverse ++ out)
termination_by (text.length, state.delay text)
decreasing_by
  rcases State.step_moves ‹_› with hmove | hdelay
  · exact Prod.Lex.left _ _ (by simp only [List.length_drop, List.length_cons]; omega)
  · by_cases hmove : r.taken = 0
    · rw [hmove, List.drop_zero]
      exact Prod.Lex.right _ hdelay
    · exact Prod.Lex.left _ _ (by simp only [List.length_drop, List.length_cons]; omega)

/-- The bytes of a script as they are written. -/
def scan (o : Blanking) (text : List UInt8) : Except ScriptFault (List UInt8) :=
  scanFrom o .markup none text []

def clean (o : Blanking) (source : List Char) : Except ScriptFault (List Char) :=
  (scan o (Utf8.encode source)).map Utf8.decodeLossy

/-- The script without comments and with one space for each run of blanks. -/
def condense (source : List Char) : Except ScriptFault (List Char) :=
  (clean .commentsOnly source).map collapse

end ExtensionLint.Script
