import ExtensionLint.Proofs.Script.Shape

/-!
# Reading line by line

No step of the scanner goes beyond an LF, and no comment to the end of the line does. So the reading of
a script is cut where its lines are (`Reads.exists_at_lf`), and a line without the marks of a comment is
all comment or has none (`Reads.comment_throughout`).
-/

namespace ExtensionLint.Script

open Text Utf8

variable {state next : State} {last : Option UInt8} {b : UInt8} {tail : List UInt8} {n : Nat}

theorem ne_lf_of_isIndent {b : UInt8} (h : isIndent b = true) : b ≠ byte '\n' := by
  rintro rfl
  cases h

theorem ne_lf_of_isLabelByte {b : UInt8} (h : isLabelByte b = true) : b ≠ byte '\n' := by
  rintro rfl
  cases h

theorem ne_lf_of_pair {b : UInt8} {tail pair : List UInt8} (hstart : pair.isPrefixOf (b :: tail) = true)
    (hlength : pair.length = 2) (hpair : byte '\n' ∉ pair) : byte '\n' ∉ (b :: tail).take 2 := by
  rwa [← hlength, take_of_isPrefixOf hstart]

/-- An LF is the last byte that a step takes, and no comment to the end of the line goes on behind it. -/
theorem Moves.lf_last (hs : state.Proper) (h : Moves last b tail state n next) :
    byte '\n' ∉ ((b :: tail).take n).dropLast ∧
      (byte '\n' ∈ (b :: tail).take n → next ≠ .lineComment) := by
  have hnone (hnot : byte '\n' ∉ (b :: tail).take n) :
      byte '\n' ∉ ((b :: tail).take n).dropLast ∧
        (byte '\n' ∈ (b :: tail).take n → next ≠ .lineComment) :=
    ⟨fun hmem => hnot (List.dropLast_subset _ hmem), fun hmem => absurd hmem hnot⟩
  have hsingle : byte '\n' ∉ ([b] : List UInt8).dropLast := List.not_mem_nil
  cases h with
  | openTag h =>
      refine hnone fun hmem => ?_
      exact absurd (lowerByte_mem_openTag h _ hmem) (by decide)
  | closeTag h => exact hnone (ne_lf_of_pair h rfl (by decide))
  | openLineComment hclose h => exact hnone List.not_mem_nil
  | openBlockComment hclose hline h => exact hnone (ne_lf_of_pair h rfl (by decide))
  | openHeredoc hmark h hsize =>
      have hfront := forall_mem_opener (P := (· ≠ byte '\n'))
        (List.all_iff_forall_prop.mp (by decide))
        (fun _ => ne_lf_of_isIndent) (fun _ => ne_lf_of_isLabelByte) h
      exact ⟨fun hmem => hfront _ hmem rfl, nofun⟩
  | leaveLine hend h => exact hnone List.not_mem_nil
  | inLine hend h =>
      refine hnone fun hmem => ?_
      rw [← List.mem_singleton.mp hmem] at hend
      cases hend
  | closeBlock h => exact hnone (ne_lf_of_pair h rfl (by decide))
  | escape h =>
      simp only [Bool.and_eq_true, beq_iff_eq] at h
      refine ⟨fun hmem => ?_, nofun⟩
      cases tail with
      | nil => cases hmem
      | cons x tail =>
          have heq : byte '\n' = b := List.mem_singleton.mp hmem
          rw [h.1] at heq
          cases heq
  | closeHeredoc hlast h =>
      have hall := forall_mem_closer (P := (· ≠ byte '\n')) (fun _ => ne_lf_of_isIndent)
        (fun _ => ne_lf_of_isLabelByte) hs h
      exact hnone fun hmem => hall _ hmem rfl
  | _ => exact ⟨hsingle, nofun⟩

theorem eq_nil_of_not_mem_dropLast {α : Type} {x : α} {front back : List α}
    (h : x ∉ (front ++ x :: back).dropLast) : back = [] := by
  cases back with
  | nil => rfl
  | cons y back =>
      rw [List.dropLast_append_of_ne_nil (List.cons_ne_nil _ _), List.dropLast_cons_cons] at h
      exact absurd (List.mem_append_right front List.mem_cons_self) h

/-- The reading is cut behind an LF. -/
theorem Reads.exists_at_lf {p q : Place} {l l' : List (UInt8 × Layer)} {x : UInt8 × Layer}
    (h : Reads p (l ++ x :: l') q) (hs : p.state.Proper) (hx : x.1 = byte '\n') :
    ∃ r, Reads p (l ++ [x]) r ∧ Reads r l' q ∧ r.state.Proper ∧ r.state ≠ .lineComment := by
  generalize hwhole : l ++ x :: l' = whole at h
  induction h generalizing l with
  | refl p => cases (List.append_eq_nil_iff.mp hwhole).2
  | @step state next last b tail n m q hmoves further ih =>
      have hnext := State.Proper.of_moves hs hmoves
      obtain ⟨hlast, hbehind⟩ := hmoves.lf_last hs
      rcases List.append_eq_append_iff.mp hwhole with ⟨inner, htaken, hrest⟩ | ⟨inner, hfront, hrest⟩
      · cases inner with
        | nil =>
            rw [List.append_nil] at htaken
            obtain ⟨r, hline, hfurther, hr⟩ := ih (l := []) hnext hrest
            refine ⟨r, ?_, hfurther, hr⟩
            rw [← htaken]
            exact .step hmoves hline
        | cons y inner =>
            obtain ⟨rfl, rfl⟩ := List.cons.inj hrest
            have hbytes : (b :: tail).take n = l.map Prod.fst ++ byte '\n' :: inner.map Prod.fst := by
              have hmap := congrArg (List.map Prod.fst) htaken
              rw [List.map_map, List.map_append, List.map_cons, hx] at hmap
              exact (List.map_id _).symm.trans hmap
            rw [hbytes] at hlast hbehind
            obtain rfl := List.map_eq_nil_iff.mp (eq_nil_of_not_mem_dropLast hlast)
            refine ⟨_, ?_, further, hnext, hbehind (List.mem_append_right _ List.mem_cons_self)⟩
            rw [← htaken, ← List.append_nil (List.map _ _)]
            exact .step hmoves (.refl _)
      · obtain ⟨r, hline, hfurther, hr⟩ := ih hnext hrest.symm
        refine ⟨r, ?_, hfurther, hr⟩
        rw [hfront, List.append_assoc]
        exact .step hmoves hline

/-- Without the marks of a comment a step stays in a comment, or outside; or it only opens one. -/
theorem Moves.comment_throughout (h : Moves last b tail state n next) (hs : state ≠ .lineComment)
    (hmarks : ∀ x ∈ (b :: tail).take n, x ∉ mark "/#*") :
    n = 0 ∧ b ∈ mark "/#*" ∨ next ≠ .lineComment ∧ (next = .blockComment ↔ state = .blockComment) ∧
      (state.layerTo next = .comment ↔ state = .blockComment) := by
  cases h with
  | openLineComment hclose h =>
      left
      rcases mem_of_opensLineComment h with rfl | rfl <;> exact ⟨rfl, by decide⟩
  | openBlockComment hclose hline h =>
      have htake : (b :: tail).take 2 = mark "/*" := take_of_isPrefixOf h
      rw [htake] at hmarks
      exact absurd (hmarks (byte '/') (by decide)) (by decide)
  | closeBlock h =>
      have htake : (b :: tail).take 2 = mark "*/" := take_of_isPrefixOf h
      rw [htake] at hmarks
      exact absurd (hmarks (byte '/') (by decide)) (by decide)
  | endLine h => exact absurd rfl hs
  | leaveLine hend h => exact absurd rfl hs
  | inLine hend h => exact absurd rfl hs
  | inBlock h => exact .inr ⟨nofun, Iff.rfl, ⟨fun _ => rfl, fun _ => rfl⟩⟩
  | _ => exact .inr ⟨nofun, ⟨nofun, nofun⟩, ⟨nofun, nofun⟩⟩

/-- Without the marks of a comment a text is all comment or has none. -/
theorem Reads.comment_throughout {p q : Place} {l : List (UInt8 × Layer)} (h : Reads p l q)
    (hp : p.state ≠ .lineComment) (hmarks : ∀ x ∈ l, x.1 ∉ mark "/#*") :
    ∀ x ∈ l, x.2 = .comment ↔ p.state = .blockComment := by
  induction h with
  | refl p => exact List.forall_mem_nil _
  | @step state next last b tail n l q hmoves further ih =>
      obtain ⟨htaken, hl⟩ := List.forall_mem_append.mp hmarks
      have hbytes : ∀ x ∈ (b :: tail).take n, x ∉ mark "/#*" :=
        fun x hx => htaken (x, _) (List.mem_map_of_mem hx)
      rcases hmoves.comment_throughout hp hbytes with ⟨rfl, hb⟩ | ⟨hline, hblock, hlayer⟩
      · -- the mark of the comment would come next
        have hahead : b :: tail = l.map Prod.fst ++ q.ahead := further.ahead_eq
        cases l with
        | nil => exact List.forall_mem_nil _
        | cons y l => exact absurd ((List.cons.inj hahead).1 ▸ hb) (hl y List.mem_cons_self)
      · refine List.forall_mem_append.mpr ⟨List.forall_mem_map.mpr fun _ _ => hlayer, fun x hx => ?_⟩
        exact (ih hline hl x hx).trans hblock

end ExtensionLint.Script
