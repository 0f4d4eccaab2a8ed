import Mathlib.Data.List.Basic
import ExtensionLint.Proofs.Text.Blank
import ExtensionLint.Script.Scan

/-!
# Openers and closing labels of heredocs

The texts that `opener?` and `closer?` accept, written as what they are made of.
-/

namespace ExtensionLint.Script

open Text

theorem isIndent_of_mem_takeWhile {text : List UInt8} :
    ∀ b ∈ text.takeWhile isIndent, isIndent b = true :=
  List.all_eq_true.mp List.all_takeWhile

/-- Labels are words. -/
def IsLabel (label : List UInt8) : Prop := label ≠ [] ∧ ∀ b ∈ label, isLabelByte b = true

theorem IsLabel.head {label : List UInt8} (h : IsLabel label) :
    ∃ b tail, label = b :: tail ∧ isLabelByte b = true := by
  obtain ⟨hne, hall⟩ := h
  cases label with
  | nil => exact absurd rfl hne
  | cons b tail => exact ⟨b, tail, rfl, hall b List.mem_cons_self⟩

theorem ne_of_isLabelByte {b c : UInt8} (hb : isLabelByte b = true) (hc : isLabelByte c = false) :
    (b == c) = false := by
  rw [beq_eq_false_iff_ne]
  rintro rfl
  rw [hc] at hb
  cases hb

theorem isIndent_of_isLabelByte {b : UInt8} (h : isLabelByte b = true) : isIndent b = false := by
  simp only [isIndent, ne_of_isLabelByte h (c := byte ' ') rfl,
    ne_of_isLabelByte h (c := byte '\t') rfl, Bool.or_self]

theorem closer?_eq_some_iff {label text : List UInt8} {size : Nat} (hlabel : IsLabel label) :
    closer? label text = some size ↔
      ∃ indent behind, text = indent ++ (label ++ behind) ∧ (∀ b ∈ indent, isIndent b = true) ∧
        behind.head?.any isLabelByte = false ∧ size = indent.length + label.length := by
  simp only [closer?, Option.bind_eq_some_iff, List.isPrefixOf?_eq_some_iff_append_eq]
  constructor
  · rintro ⟨behind, hbehind, hsize⟩
    cases hnext : behind.head?.any isLabelByte with
    | true => simp [hnext] at hsize
    | false =>
        simp only [hnext, Bool.false_eq_true, ↓reduceIte, Option.some.injEq] at hsize
        refine ⟨text.takeWhile isIndent, behind, ?_, isIndent_of_mem_takeWhile, hnext, hsize.symm⟩
        rw [hbehind, List.takeWhile_append_dropWhile]
  · rintro ⟨indent, behind, rfl, hindent, hnext, rfl⟩
    obtain ⟨b, tail, rfl, hb⟩ := hlabel.head
    have hstop : ((b :: tail) ++ behind).head?.any isIndent = false := by
      simpa using isIndent_of_isLabelByte hb
    obtain ⟨htake, hdrop⟩ := span_append hindent hstop
    exact ⟨behind, hdrop.symm, by simp only [hnext, htake, Bool.false_eq_true, ↓reduceIte]⟩

/-- The marks that may stand around the label of an opener. -/
def IsQuoting (quote : List UInt8) : Prop := quote = [] ∨ quote = mark "'" ∨ quote = mark "\""

/-- How many bytes of a mark around a label stand at the start of a text. -/
def quotingSize (text : List UInt8) : Nat :=
  if text.head?.any (fun b => b == byte '\'' || b == byte '"') then 1 else 0

theorem take_quotingSize (text : List UInt8) :
    IsQuoting (text.take (quotingSize text)) ∧
      (text.take (quotingSize text)).length = quotingSize text := by
  unfold quotingSize
  split
  · rename_i hquote
    cases text with
    | nil => cases hquote
    | cons b text =>
        simp only [List.head?_cons, Option.any_some, Bool.or_eq_true, beq_iff_eq] at hquote
        rcases hquote with rfl | rfl
        · exact ⟨.inr (.inl rfl), rfl⟩
        · exact ⟨.inr (.inr rfl), rfl⟩
  · exact ⟨.inl rfl, rfl⟩

theorem quotingSize_append {quote text : List UInt8} (hquote : IsQuoting quote)
    (htext : text.head?.any isLabelByte = true) : quotingSize (quote ++ text) = quote.length := by
  rcases hquote with rfl | rfl | rfl
  · cases text with
    | nil => rfl
    | cons b text =>
        have hb : isLabelByte b = true := by simpa using htext
        simp only [quotingSize, List.nil_append, List.head?_cons, Option.any_some,
          ne_of_isLabelByte hb (c := byte '\'') rfl, ne_of_isLabelByte hb (c := byte '"') rfl,
          Bool.or_self, Bool.false_eq_true, ↓reduceIte, List.length_nil]
  · rfl
  · rfl

theorem opener?_eq_bind (text : List UInt8) :
    opener? text = ((mark "<<<").isPrefixOf? text).bind fun inner =>
      let named := inner.dropWhile isIndent
      let label := (named.drop (quotingSize named)).takeWhile isLabelByte
      if label.isEmpty then none
      else some ⟨label, 3 + (inner.takeWhile isIndent).length + quotingSize named + label.length +
        quotingSize named⟩ := rfl

theorem opener?_eq_some_iff {text : List UInt8} {opener : Opener} :
    opener? text = some opener ↔
      ∃ indent quote behind,
        text = mark "<<<" ++ (indent ++ (quote ++ (opener.label ++ behind))) ∧
        (∀ b ∈ indent, isIndent b = true) ∧ IsQuoting quote ∧ IsLabel opener.label ∧
        behind.head?.any isLabelByte = false ∧
        opener.size = 3 + indent.length + quote.length + opener.label.length + quote.length := by
  simp only [opener?_eq_bind, Option.bind_eq_some_iff, List.isPrefixOf?_eq_some_iff_append_eq,
    Option.ite_none_left_eq_some, Option.some.injEq, List.isEmpty_iff]
  constructor
  · rintro ⟨inner, rfl, hne, rfl⟩
    let named := inner.dropWhile isIndent
    obtain ⟨hquote, hsize⟩ := take_quotingSize named
    refine ⟨inner.takeWhile isIndent, named.take (quotingSize named),
      (named.drop (quotingSize named)).dropWhile isLabelByte, ?_, isIndent_of_mem_takeWhile, hquote,
      ⟨hne, List.all_eq_true.mp List.all_takeWhile⟩, head?_dropWhile_any _ _, by rw [hsize]⟩
    simp only [named, List.takeWhile_append_dropWhile, List.take_append_drop]
  · rintro ⟨indent, quote, behind, rfl, hindent, hquote, hlabel, hnext, hsize⟩
    obtain ⟨b, tail, hb, hbyte⟩ := hlabel.head
    have hhead : (opener.label ++ behind).head?.any isLabelByte = true := by
      rw [hb]; simpa using hbyte
    have hstop : (quote ++ (opener.label ++ behind)).head?.any isIndent = false := by
      rcases hquote with rfl | rfl | rfl
      · rw [hb]; simpa using isIndent_of_isLabelByte hbyte
      · rfl
      · rfl
    obtain ⟨htake, hdrop⟩ := span_append hindent hstop
    refine ⟨_, rfl, ?_⟩
    simp only [htake, hdrop, quotingSize_append hquote hhead, List.drop_left,
      (span_append hlabel.2 hnext).1]
    exact ⟨hlabel.1, by rw [← hsize]⟩

end ExtensionLint.Script
