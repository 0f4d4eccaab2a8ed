import Mathlib.Logic.ExistsUnique
import ExtensionLint.Proofs.Text.LineEnds

/-!
# Physical lines and the text they make up

A text is its physical lines with line ends between them, and there is one way to choose these ends. A CR
does not end a line if an LF follows, since the two are one line end. With this in mind lines are read as
they were joined, whatever ends they were given (`physicalLines_written`).
-/

namespace ExtensionLint.Text

/-- What may end a physical line. -/
inductive LineEnd
  | lf
  | crlf
  | cr
  deriving DecidableEq, Repr

def LineEnd.text : LineEnd → List Char
  | lf => ['\n']
  | crlf => Text.crlf
  | cr => Text.cr

/-- The text holds no line end. -/
def IsLine (s : List Char) : Prop := '\n' ∉ s ∧ '\r' ∉ s

/-- The text of lines that have these ends; the last line has none. -/
def written : (lines : List (List Char)) → (ends : List LineEnd) → List Char
  | line :: lines, e :: ends => line ++ (e.text ++ written lines ends)
  | line :: _, [] => line
  | [], _ => []

/-- No CR ends a line right before an empty line that an LF ends. -/
def Apart (lines : List (List Char)) (ends : List LineEnd) : Prop :=
  ∀ i : Nat, ends[i]? = some .cr → lines[i + 1]? = some [] → ends[i + 1]? ≠ some .lf

variable {line s t : List Char} {lines : List (List Char)} {e e' : LineEnd} {ends ends' : List LineEnd}

/-! ## One line after the other -/

theorem cutLines_append_done (s line : List Char) (done more : List (List Char)) :
    cutLines s line (done ++ more) = more.reverse ++ cutLines s line done := by
  induction s, line, done using cutLines.induct with
  | case1 line done =>
      rw [cutLines, cutLines, ← List.cons_append, List.reverse_append]
  | case2 s line done ih => exact ih
  | case3 c s line done hcrlf hbreak ih =>
      rw [cutLines.eq_3 _ _ _ _ hcrlf, cutLines.eq_3 _ _ _ _ hcrlf, if_pos hbreak, if_pos hbreak]
      exact ih
  | case4 c s line done hcrlf hbreak ih =>
      rw [cutLines.eq_3 _ _ _ _ hcrlf, cutLines.eq_3 _ _ _ _ hcrlf, if_neg hbreak, if_neg hbreak]
      exact ih

theorem cutLines_isLine (h : IsLine line) (s before : List Char) (done : List (List Char)) :
    cutLines (line ++ s) before done = cutLines s (line.reverse ++ before) done := by
  induction line generalizing before with
  | nil => rfl
  | cons c line ih =>
      obtain ⟨hlf, hcr⟩ := h
      rw [List.mem_cons, not_or] at hlf hcr
      have hbreak := not_isLineBreak_iff.mpr ⟨Ne.symm hlf.1, Ne.symm hcr.1⟩
      rw [List.cons_append, cutLines.eq_3 _ _ _ _ fun _ hc _ => hcr.1 hc.symm,
        if_neg (Bool.eq_false_iff.mp hbreak), ih ⟨hlf.2, hcr.2⟩, List.reverse_cons, List.append_assoc]
      rfl

theorem cutLines_end (hcr : e = .cr → s.head? ≠ some '\n') (before : List Char)
    (done : List (List Char)) :
    cutLines (e.text ++ s) before done = cutLines s [] (before.reverse :: done) := by
  cases e with
  | lf => rfl
  | crlf => rfl
  | cr =>
      have hlone : ∀ u, '\r' = '\r' → s = '\n' :: u → False := by
        intro u _ hu
        rw [hu] at hcr
        exact hcr rfl rfl
      exact cutLines.eq_3 _ _ _ _ hlone

theorem physicalLines_of_isLine (h : IsLine s) : physicalLines s = [s] := by
  have hcut := cutLines_isLine h [] [] []
  rwa [List.append_nil, List.append_nil, cutLines, List.reverse_reverse] at hcut

/-- The first line of a text ends at its first line end. -/
theorem physicalLines_append (h : IsLine line) (hcr : e = .cr → s.head? ≠ some '\n') :
    physicalLines (line ++ (e.text ++ s)) = line :: physicalLines s := by
  rw [physicalLines, cutLines_isLine h, List.append_nil, cutLines_end hcr, List.reverse_reverse]
  exact cutLines_append_done s [] [] [line]

theorem exists_first_line (s : List Char) : IsLine s ∨ ∃ line e t, s = line ++ (LineEnd.text e ++ t) ∧
    IsLine line ∧ (e = .cr → t.head? ≠ some '\n') := by
  have hnil : IsLine [] := ⟨List.not_mem_nil, List.not_mem_nil⟩
  induction s with
  | nil => exact .inl hnil
  | cons c s ih =>
      by_cases hlf : c = '\n'
      · exact .inr ⟨[], .lf, s, by rw [hlf]; rfl, hnil, nofun⟩
      by_cases hcr : c = '\r'
      · -- with an LF behind it the CR is part of a longer end
        by_cases hs : s.head? = some '\n'
        · obtain ⟨t, rfl⟩ := List.head?_eq_some_iff.mp hs
          exact .inr ⟨[], .crlf, t, by rw [hcr]; rfl, hnil, nofun⟩
        · exact .inr ⟨[], .cr, s, by rw [hcr]; rfl, hnil, fun _ => hs⟩
      have hcons {line : List Char} (h : IsLine line) : IsLine (c :: line) := by
        simp only [IsLine, List.mem_cons, not_or]
        exact ⟨⟨Ne.symm hlf, h.1⟩, Ne.symm hcr, h.2⟩
      rcases ih with h | ⟨line, e, t, rfl, hline, he⟩
      · exact .inl (hcons h)
      · exact .inr ⟨c :: line, e, t, rfl, hcons hline, he⟩

/-- Induction over the physical lines of a text. -/
theorem physicalLines_induction {P : List Char → Prop} (last : ∀ s, IsLine s → P s)
    (line : ∀ line e t, IsLine line → (e = .cr → t.head? ≠ some '\n') → P t →
      P (line ++ (LineEnd.text e ++ t))) (s : List Char) : P s := by
  rcases exists_first_line s with h | ⟨first, e, t, hs, hfirst, he⟩
  · exact last s h
  · have hshorter : t.length < s.length := by
      have hpos : 0 < e.text.length := by cases e <;> decide
      rw [hs, List.length_append, List.length_append]
      omega
    exact hs ▸ line first e t hfirst he (physicalLines_induction last line t)
termination_by s.length

/-! ## Ends between lines -/

theorem apart_cons : Apart (line :: lines) (e :: ends) ↔
    (e = .cr → ¬ (lines.head? = some [] ∧ ends.head? = some .lf)) ∧ Apart lines ends := by
  simp only [List.head?_eq_getElem?]
  constructor
  · intro h
    exact ⟨fun he hlf => h 0 (congrArg some he) hlf.1 hlf.2, fun i => h (i + 1)⟩
  · rintro ⟨hfirst, hrest⟩ i
    cases i with
    | zero => exact fun he hline hlf => hfirst (Option.some.inj he) ⟨hline, hlf⟩
    | succ i => exact hrest i

/-- The ends stand between the lines, and none of them makes one end with what follows. -/
inductive Joinable : (lines : List (List Char)) → (ends : List LineEnd) → Prop
  | last {line : List Char} : IsLine line → Joinable [line] []
  | more {line : List Char} {lines : List (List Char)} {e : LineEnd} {ends : List LineEnd} :
      IsLine line → (e = .cr → (written lines ends).head? ≠ some '\n') → Joinable lines ends →
      Joinable (line :: lines) (e :: ends)

theorem IsLine.head?_append (h : IsLine line) (s : List Char) :
    (line ++ s).head? = some '\n' ↔ line = [] ∧ s.head? = some '\n' := by
  cases line with
  | nil => simp
  | cons c line =>
      have hc : c ≠ '\n' := by
        rintro rfl
        exact h.1 List.mem_cons_self
      simp [hc]

theorem Joinable.head?_written (h : Joinable lines ends) :
    (written lines ends).head? = some '\n' ↔ lines.head? = some [] ∧ ends.head? = some .lf := by
  cases h with
  | last h => simpa [written] using h.head?_append []
  | @more _ _ e _ h _ _ =>
      have he (s : List Char) : (e.text ++ s).head? = some '\n' ↔ e = .lf := by
        cases e <;> simp [LineEnd.text, crlf, cr]
      rw [written, h.head?_append, he, List.head?_cons, List.head?_cons, Option.some_inj, Option.some_inj]

/-- Lines with an end behind each but the last are those of a text unless a CR meets an LF. -/
theorem joinable_iff : Joinable lines ends ↔
    (∀ line ∈ lines, IsLine line) ∧ ends.length + 1 = lines.length ∧ Apart lines ends := by
  constructor
  · intro h
    induction h with
    | last h => exact ⟨List.forall_mem_singleton.mpr h, rfl, nofun⟩
    | more h hcr hrest ih =>
        obtain ⟨hlines, hcount, hapart⟩ := ih
        exact ⟨List.forall_mem_cons.mpr ⟨h, hlines⟩, congrArg (· + 1) hcount,
          apart_cons.mpr ⟨fun he => mt hrest.head?_written.mpr (hcr he), hapart⟩⟩
  · rintro ⟨hlines, hcount, hapart⟩
    induction lines generalizing ends with
    | nil => cases hcount
    | cons line lines ih =>
        obtain ⟨hline, hlines⟩ := List.forall_mem_cons.mp hlines
        cases ends with
        | nil =>
            obtain rfl := List.eq_nil_of_length_eq_zero (Nat.succ.inj hcount).symm
            exact .last hline
        | cons e ends =>
            obtain ⟨hcr, hapart⟩ := apart_cons.mp hapart
            have hrest := ih hlines (Nat.succ.inj hcount) hapart
            exact .more hline (fun he => mt hrest.head?_written.mp (hcr he)) hrest

/-! ## Reading and joining -/

/-- Lines are read as they were joined. -/
theorem physicalLines_written (h : Joinable lines ends) : physicalLines (written lines ends) = lines := by
  induction h with
  | last h => exact physicalLines_of_isLine h
  | more h hcr _ ih => rw [written, physicalLines_append h hcr, ih]

theorem exists_written (s : List Char) : ∃ lines ends, Joinable lines ends ∧ written lines ends = s := by
  induction s using physicalLines_induction with
  | last s h => exact ⟨[s], [], .last h, rfl⟩
  | line line e t h hcr ih =>
      obtain ⟨lines, ends, hjoin, rfl⟩ := ih
      exact ⟨line :: lines, e :: ends, .more h hcr hjoin, rfl⟩

theorem LineEnd.text_append_inj (hs : e = .cr → s.head? ≠ some '\n')
    (ht : e' = .cr → t.head? ≠ some '\n') (h : e.text ++ s = e'.text ++ t) : e = e' ∧ s = t := by
  cases e with
  | lf =>
      cases e' with
      | lf => exact ⟨rfl, (List.cons.inj h).2⟩
      | crlf | cr => exact absurd (List.cons.inj h).1 (by decide)
  | crlf =>
      cases e' with
      | lf => exact absurd (List.cons.inj h).1 (by decide)
      | crlf => exact ⟨rfl, (List.cons.inj (List.cons.inj h).2).2⟩
      | cr =>
          obtain rfl : '\n' :: s = t := (List.cons.inj h).2
          exact absurd rfl (ht rfl)
  | cr =>
      cases e' with
      | lf => exact absurd (List.cons.inj h).1 (by decide)
      | crlf =>
          obtain rfl : s = '\n' :: t := (List.cons.inj h).2
          exact absurd rfl (hs rfl)
      | cr => exact ⟨rfl, (List.cons.inj h).2⟩

theorem written_injective (h : Joinable lines ends) (h' : Joinable lines ends')
    (htext : written lines ends = written lines ends') : ends = ends' := by
  induction h generalizing ends' with
  | last _ =>
      cases h' with
      | last _ => rfl
      | more _ _ hrest => cases hrest
  | more _ hcr hrest ih =>
      cases h' with
      | last _ => cases hrest
      | more _ hcr' hrest' =>
          obtain ⟨rfl, hbehind⟩ := LineEnd.text_append_inj hcr hcr' (List.append_cancel_left htext)
          rw [ih hrest' hbehind]

theorem written_replicate (hne : lines ≠ []) :
    written lines (List.replicate (lines.length - 1) e) = e.text.intercalate lines := by
  induction lines with
  | nil => exact absurd rfl hne
  | cons line lines ih =>
      cases lines with
      | nil => exact (List.append_nil line).symm
      | cons next lines =>
          have hrest := ih (List.cons_ne_nil _ _)
          rw [List.intercalate_cons_of_ne_nil (List.cons_ne_nil _ _), ← hrest, List.append_assoc]
          rfl

theorem apart_replicate (n : Nat) : Apart lines (List.replicate n e) := by
  intro i hcr _ hlf
  have hcr := List.eq_of_mem_replicate (List.mem_of_getElem? hcr)
  have hlf := List.eq_of_mem_replicate (List.mem_of_getElem? hlf)
  cases hcr.trans hlf.symm

/-- The lines of a text hold no line ends, and there is one way to choose an end for each line but the last
so that the text comes out and no CR stands right before an empty line with an LF. So lines are read as they
were joined, with ends of several kinds or of one. -/
theorem physicalLines_joined :
    (∀ s, physicalLines s ≠ [] ∧ (∀ line ∈ physicalLines s, '\n' ∉ line ∧ '\r' ∉ line) ∧
      ∃! ends : List LineEnd, ends.length + 1 = (physicalLines s).length ∧
        written (physicalLines s) ends = s ∧ Apart (physicalLines s) ends) ∧
    (∀ lines ends, (∀ line ∈ lines, '\n' ∉ line ∧ '\r' ∉ line) → ends.length + 1 = lines.length →
      Apart lines ends → physicalLines (written lines ends) = lines) ∧
    ∀ lines, lines ≠ [] → (∀ line ∈ lines, '\n' ∉ line ∧ '\r' ∉ line) →
      ∀ e : LineEnd, physicalLines (e.text.intercalate lines) = lines := by
  refine ⟨fun s => ?_, fun lines ends hlines hcount hapart => ?_, fun lines hne hlines e => ?_⟩
  · obtain ⟨lines, ends, hjoin, rfl⟩ := exists_written s
    obtain ⟨hlines, hcount, hapart⟩ := joinable_iff.mp hjoin
    rw [physicalLines_written hjoin]
    refine ⟨?_, hlines, ends, ⟨hcount, rfl, hapart⟩, ?_⟩
    · rintro rfl
      cases hcount
    · rintro ends' ⟨hcount', htext, hapart'⟩
      exact written_injective (joinable_iff.mpr ⟨hlines, hcount', hapart'⟩) hjoin htext
  · exact physicalLines_written (joinable_iff.mpr ⟨hlines, hcount, hapart⟩)
  · have hcount : (List.replicate (lines.length - 1) e).length + 1 = lines.length := by
      rw [List.length_replicate]
      exact Nat.sub_add_cancel (List.length_pos_iff.mpr hne)
    rw [← written_replicate hne]
    exact physicalLines_written (joinable_iff.mpr ⟨hlines, hcount, apart_replicate _⟩)

/-- The empty line stands between a lone CR and a CRLF, or between two CRs. -/
theorem physicalLines_joined_mixed :
    let lines : List (List Char) := [['a'], [], ['b']]
    let ends : List LineEnd := [.cr, .crlf]
    (∀ line ∈ lines, '\n' ∉ line ∧ '\r' ∉ line) ∧ Apart lines ends ∧
    physicalLines "a\r\r\nb".toList = lines ∧ physicalLines "a\r\rb".toList = lines := by
  intro lines ends
  obtain ⟨-, hmixed, halike⟩ := physicalLines_joined
  have hlines : ∀ line ∈ lines, '\n' ∉ line ∧ '\r' ∉ line := by decide
  have hapart : Apart lines ends := by
    intro i hcr _
    rcases i with _ | _ | i
    · decide
    · cases hcr
    · cases hcr
  exact ⟨hlines, hapart, hmixed lines ends hlines rfl hapart,
    halike lines (List.cons_ne_nil _ _) hlines .cr⟩

end ExtensionLint.Text
