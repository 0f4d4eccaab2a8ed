import ExtensionLint.Proofs.Script.Heredoc

/-!
# A grammar of scripts

Scripts as pieces one behind another: markup around the tags, and between an open tag and the close tag
code, comments, literals and heredocs. Of the scanner the grammar uses only the kinds of bytes.
-/

namespace ExtensionLint.Script

/-- A part of a literal: a byte, or a backslash with the byte behind it. -/
inductive LiteralPart
  | plain (b : UInt8)
  | escaped (b : UInt8)

def LiteralPart.bytes : LiteralPart → List UInt8
  | .plain b => [b]
  | .escaped b => [byte '\\', b]

def LiteralPart.WellFormed (quote : UInt8) : LiteralPart → Prop
  | .plain b => b ≠ quote ∧ b ≠ byte '\\'
  | .escaped _ => True

instance (quote : UInt8) (part : LiteralPart) : Decidable (part.WellFormed quote) :=
  match part with
  | .plain b => inferInstanceAs (Decidable (b ≠ quote ∧ b ≠ byte '\\'))
  | .escaped _ => .isTrue trivial

/-- A line with the line break behind it. -/
structure Line where
  content : List UInt8
  lineBreak : List UInt8

def Line.bytes (line : Line) : List UInt8 := line.content ++ line.lineBreak

def IsLineBreak (bytes : List UInt8) : Prop :=
  bytes = mark "\n" ∨ bytes = mark "\r" ∨ bytes = mark "\r\n"

/-- The text begins, after blanks, with the label, and no longer word. -/
def Closes (label text : List UInt8) : Prop :=
  ∃ indent behind, text = indent ++ (label ++ behind) ∧ (∀ b ∈ indent, isIndent b = true) ∧
    behind.head?.any isLabelByte = false

structure Line.WellFormed (label : List UInt8) (line : Line) : Prop where
  content : ∀ b ∈ line.content, isLineEnd b = false
  lineBreak : IsLineBreak line.lineBreak
  notClosing : ¬ Closes label line.content

/-- A heredoc. The label stands in the opener, after `indent` and between two times `quote`, and at the
end, after `margin`. -/
structure Heredoc where
  indent : List UInt8
  quote : List UInt8
  label : List UInt8
  lineBreak : List UInt8
  lines : List Line
  margin : List UInt8

def Heredoc.opener (h : Heredoc) : List UInt8 :=
  mark "<<<" ++ (h.indent ++ (h.quote ++ (h.label ++ h.quote)))

def Heredoc.bytes (h : Heredoc) : List UInt8 :=
  h.opener ++ (h.lineBreak ++ (h.lines.flatMap Line.bytes ++ (h.margin ++ h.label)))

structure Heredoc.WellFormed (h : Heredoc) : Prop where
  indent : ∀ b ∈ h.indent, isIndent b = true
  quote : IsQuoting h.quote
  label : IsLabel h.label
  lineBreak : IsLineBreak h.lineBreak
  lines : ∀ line ∈ h.lines, line.WellFormed h.label
  margin : ∀ b ∈ h.margin, isIndent b = true

inductive Piece
  /-- Markup, up to the next tag. -/
  | text (body : List UInt8)
  | openTag (tag : List UInt8)
  | closeTag
  /-- A byte of code. -/
  | plain (b : UInt8)
  /-- A comment from `sign` to the end of the line. -/
  | lineComment (sign body : List UInt8)
  | blockComment (body : List UInt8)
  | literal (quote : UInt8) (parts : List LiteralPart)
  | heredoc (h : Heredoc)

namespace Piece

def bytes : Piece → List UInt8
  | text body => body
  | openTag tag => tag
  | closeTag => mark "?>"
  | plain b => [b]
  | lineComment sign body => sign ++ body
  | blockComment body => mark "/*" ++ (body ++ mark "*/")
  | literal quote parts => quote :: (parts.flatMap LiteralPart.bytes ++ [quote])
  | heredoc h => h.bytes

def WellFormed : Piece → Prop
  | text body => ¬ mark "<?" <:+: body
  | openTag tag => tag.map lowerByte = mark "<?php" ∨ tag = mark "<?="
  | closeTag => True
  | plain b => isQuote b = false ∧ b ∉ mark "#/?<"
  | lineComment sign body =>
    (sign = mark "//" ∨ sign = mark "#" ∧ body.head? ≠ some (byte '[')) ∧
      (∀ b ∈ body, isLineEnd b = false) ∧ ¬ mark "?>" <:+: body
  | blockComment body => ¬ mark "*/" <:+: body
  | literal quote parts => isQuote quote = true ∧ ∀ part ∈ parts, part.WellFormed quote
  | heredoc h => h.WellFormed

/-- Whether the scanner hides a piece. -/
def hidden (o : Blanking) : Piece → Bool
  | text _ => o.markup
  | lineComment _ _ | blockComment _ => o.comments
  | _ => false

end Piece

/-- The two kinds of places where a piece may stand. -/
inductive Mode
  | markup
  | code

/-- Where a piece stands. -/
def Piece.mode : Piece → Mode
  | .text _ | .openTag _ => .markup
  | _ => .code

/-- Where the piece behind it stands. -/
def Piece.nextMode : Piece → Mode
  | .text _ | .closeTag => .markup
  | _ => .code

/-- What can end a comment to the end of the line: a line end, a close tag or the end of the script. -/
def EndsLineComment : Option Piece → Prop
  | none => True
  | some .closeTag => True
  | some (.plain b) => isLineEnd b = true
  | some _ => False

/-- Which pieces can stand behind a piece, apart from where they stand. -/
def Piece.Precedes : Piece → Option Piece → Prop
  | .text _, next => ∀ p, next = some p → ∃ tag, p = .openTag tag
  | .lineComment _ _, next => EndsLineComment next
  | .heredoc _, next => ∀ p, next = some p → p.bytes.head?.any isLabelByte = false
  | _, _ => True

/-- Pieces one behind another. -/
inductive Sequence : Mode → List Piece → Prop
  | nil (m : Mode) : Sequence m []
  | cons {m : Mode} {p : Piece} {rest : List Piece} (hmode : p.mode = m) (h : p.WellFormed)
      (hnext : p.Precedes rest.head?) (hrest : Sequence p.nextMode rest) : Sequence m (p :: rest)

theorem sequence_plain (bytes : List UInt8) {rest : List Piece}
    (h : ∀ b ∈ bytes, isQuote b = false ∧ b ∉ mark "#/?<") (hrest : Sequence .code rest) :
    Sequence .code (bytes.map Piece.plain ++ rest) := by
  induction bytes with
  | nil => exact hrest
  | cons b bytes ih =>
      obtain ⟨hb, hbytes⟩ := List.forall_mem_cons.mp h
      exact .cons rfl hb trivial (ih hbytes)

end ExtensionLint.Script
