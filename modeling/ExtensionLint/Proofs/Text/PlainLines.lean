import ExtensionLint.Proofs.Text.Lines

/-!
# Plain lines

A text is its first plain line, the LF that ends it and the text behind (`plainLines_append`). An LF is
found in the bytes where it is in the text (`exists_of_encode_eq_append`).
-/

namespace ExtensionLint.Text

open Utf8

theorem cutPlainLines_done (s line : List Char) (done : List (List Char)) :
    cutPlainLines s line done = done.reverse ++ cutPlainLines s line [] := by
  induction s generalizing line done with
  | nil => cases line <;> simp [cutPlainLines]
  | cons c s ih =>
      rw [cutPlainLines, cutPlainLines]
      split
      · rw [ih [] (closedLine line :: done), ih [] [closedLine line]]
        simp
      · exact ih (c :: line) done

theorem cutPlainLines_append {s : List Char} (h : '\n' ∉ s) (t line : List Char) :
    cutPlainLines (s ++ '\n' :: t) line [] = closedLine (s.reverse ++ line) :: plainLines t := by
  induction s generalizing line with
  | nil => exact cutPlainLines_done t [] [closedLine line]
  | cons c s ih =>
      obtain ⟨hc, hs⟩ := not_or.mp fun hor => h (List.mem_cons.mpr hor)
      rw [List.cons_append, cutPlainLines, if_neg (by simpa using Ne.symm hc), ih hs,
        List.reverse_cons, List.append_assoc]
      rfl

/-- The first line of a text ends at its first LF. -/
theorem plainLines_append {s : List Char} (h : '\n' ∉ s) (t : List Char) :
    plainLines (s ++ '\n' :: t) = closedLine s.reverse :: plainLines t := by
  rw [plainLines, cutPlainLines_append h, List.append_nil]

theorem plainLines_of_not_mem {s : List Char} (h : '\n' ∉ s) (hne : s ≠ []) : plainLines s = [s] := by
  have hcut (s line : List Char) (h : '\n' ∉ s) (hne : line.reverse ++ s ≠ []) :
      cutPlainLines s line [] = [line.reverse ++ s] := by
    induction s generalizing line with
    | nil =>
        cases line with
        | nil => exact absurd rfl hne
        | cons c line => rw [List.append_nil]; rfl
    | cons c s ih =>
        obtain ⟨hc, hs⟩ := not_or.mp fun hor => h (List.mem_cons.mpr hor)
        have hmove : (c :: line).reverse ++ s = line.reverse ++ c :: s := by
          rw [List.reverse_cons, List.append_assoc]
          rfl
        rw [cutPlainLines, if_neg (by simpa using Ne.symm hc), ih (c :: line) hs (hmove ▸ hne), hmove]
  exact hcut s [] h hne

theorem eq_or_eq_of_closedLine (s : List Char) :
    s = closedLine s.reverse ∨ s = closedLine s.reverse ++ ['\r'] := by
  cases hs : s.reverse with
  | nil => exact .inl (List.reverse_eq_nil_iff.mp hs)
  | cons c line =>
      have hline : s = line.reverse ++ [c] := by
        rw [← List.reverse_cons, ← hs, List.reverse_reverse]
      by_cases hc : c = '\r'
      · subst hc
        exact .inr hline
      · left
        rw [closedLine.eq_2 _ fun line h => hc (List.cons.inj h).1, List.reverse_cons]
        exact hline

/-- Induction over the lines of a text. -/
theorem lines_induction {P : List Char → Prop} (last : ∀ s, '\n' ∉ s → P s)
    (line : ∀ s t, '\n' ∉ s → P t → P (s ++ '\n' :: t)) (s : List Char) : P s := by
  by_cases h : '\n' ∈ s
  · obtain ⟨front, t, hs, hfront⟩ := List.eq_append_cons_of_mem h
    have hshorter : t.length < s.length := by
      rw [hs, List.length_append, List.length_cons]
      omega
    exact hs ▸ line front t hfront (lines_induction last line t)
  · exact last s h
termination_by s.length

/-! ## LF in the bytes -/

theorem lf_mem_encode_iff {s : List Char} : 0x0A ∈ encode s ↔ '\n' ∈ s :=
  ascii_mem_encode_iff (by decide)

theorem append_cons_inj {α : Type} {x : α} {l₁ l₂ m₁ m₂ : List α} (hl : x ∉ l₁) (hm : x ∉ m₁)
    (h : l₁ ++ x :: l₂ = m₁ ++ x :: m₂) : l₁ = m₁ ∧ l₂ = m₂ := by
  induction l₁ generalizing m₁ with
  | nil =>
      cases m₁ with
      | nil => exact ⟨rfl, (List.cons.inj h).2⟩
      | cons y m₁ => exact absurd ((List.cons.inj h).1 ▸ List.mem_cons_self) hm
  | cons y l₁ ih =>
      obtain ⟨hy, hl⟩ := not_or.mp fun hor => hl (List.mem_cons.mpr hor)
      cases m₁ with
      | nil => exact absurd (List.cons.inj h).1.symm hy
      | cons z m₁ =>
          obtain ⟨rfl, htail⟩ := List.cons.inj h
          obtain ⟨rfl, rfl⟩ := ih hl (not_or.mp fun hor => hm (List.mem_cons.mpr hor)).2 htail
          exact ⟨rfl, rfl⟩

/-- A text whose bytes are cut at an LF is cut there itself. -/
theorem exists_of_encode_eq_append {s : List Char} {front back : List UInt8}
    (h : encode s = front ++ 0x0A :: back) (hfront : 0x0A ∉ front) :
    ∃ line rest, s = line ++ '\n' :: rest ∧ '\n' ∉ line ∧ encode line = front ∧ encode rest = back := by
  have hmem : '\n' ∈ s := by
    rw [← lf_mem_encode_iff, h]
    exact List.mem_append_right _ List.mem_cons_self
  obtain ⟨line, rest, rfl, hline⟩ := List.eq_append_cons_of_mem hmem
  have hbytes : encode (line ++ '\n' :: rest) = encode line ++ 0x0A :: encode rest := by
    rw [encode_append]
    rfl
  obtain ⟨hfirst, hrest⟩ := append_cons_inj (mt lf_mem_encode_iff.mp hline) hfront (hbytes.symm.trans h)
  exact ⟨line, rest, rfl, hline, hfirst, hrest⟩

end ExtensionLint.Text
