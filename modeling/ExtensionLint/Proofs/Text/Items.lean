import Mathlib.Data.List.DropRight
import ExtensionLint.Proofs.Text.Blank

/-!
# Lists written with commas

What is read of a list are items: texts without commas that neither begin nor end with a blank. Written
with commas between them they are read again, and so they are with blanks around them and with blank
pieces anywhere (`listItems_pieces`).
-/

namespace ExtensionLint.Text

variable {before after part s w : List Char}

/-! ## Trimming -/

/-- The text neither begins nor ends with a blank. -/
structure Trimmed (s : List Char) : Prop where
  head : s.head?.any isBlank = false
  last : s.getLast?.any isBlank = false

theorem isPrefix_trimEnd (s : List Char) : trimEnd s <+: s := List.rdropWhile_prefix isBlank s

theorem trimmed_trim (s : List Char) : Trimmed (trim s) where
  head := by
    obtain ⟨back, hback⟩ := isPrefix_trimEnd (trimStart s)
    have hhead := head?_dropWhile_any isBlank s
    rw [← trimStart, ← hback, ← trim] at hhead
    cases htrim : trim s with
    | nil => rfl
    | cons c t =>
        rw [htrim] at hhead
        exact hhead
  last := by
    rw [trim, trimEnd, List.getLast?_reverse]
    exact head?_dropWhile_any isBlank _

theorem trim_subset (s : List Char) : trim s ⊆ s :=
  fun _ hc => (List.dropWhile_sublist isBlank).subset ((isPrefix_trimEnd _).subset hc)

theorem trim_of_blank (h : ∀ c ∈ s, isBlank c = true) : trim s = [] := by
  rw [trim, trimStart, List.dropWhile_eq_nil_iff.mpr h]
  rfl

/-- The blanks around a text are what is trimmed. -/
theorem Trimmed.trim_eq (h : Trimmed w) (hne : w ≠ []) (hbefore : ∀ c ∈ before, isBlank c = true)
    (hafter : ∀ c ∈ after, isBlank c = true) : trim (before ++ w ++ after) = w := by
  have hstart : trimStart (before ++ w ++ after) = w ++ after := by
    rw [trimStart, List.append_assoc, (span_append hbefore _).2]
    rw [List.head?_append_of_ne_nil w hne]
    exact h.head
  have hafter : ∀ c ∈ after.reverse, isBlank c = true := fun c hc => hafter c (List.mem_reverse.mp hc)
  rw [trim, hstart, trimEnd, List.reverse_append, (span_append hafter _).2, List.reverse_reverse]
  rw [List.head?_reverse]
  exact h.last

/-! ## Parts -/

theorem cutAt_eq_splitOnPPrepend (separates : Char → Bool) (s part : List Char) :
    cutAt separates s part [] = s.splitOnPPrepend separates part := by
  induction s generalizing part with
  | nil => exact (List.splitOnPPrepend_nil).symm
  | cons c s ih =>
      rw [cutAt, List.splitOnPPrepend_cons_eq_if]
      split
      · rw [cutAt_done, ih]
        rfl
      · exact ih (c :: part)

theorem parts_eq_splitOn (mark : Char) (s : List Char) : parts (· == mark) s = s.splitOn mark := by
  rw [parts, cutAt_eq_splitOnPPrepend, List.splitOn_eq_splitOnP, List.splitOnP_eq_splitOnPPrepend]

theorem forall_mem_cutAt {separates : Char → Bool} (hpart : ∀ c ∈ part, separates c = false) :
    ∀ w ∈ cutAt separates s part [], ∀ c ∈ w, separates c = false := by
  induction s generalizing part with
  | nil =>
      rw [cutAt, List.reverse_singleton, List.forall_mem_singleton]
      exact fun c hc => hpart c (List.mem_reverse.mp hc)
  | cons d s ih =>
      rw [cutAt]
      split
      · rw [cutAt_done, List.reverse_singleton, List.singleton_append, List.forall_mem_cons]
        exact ⟨fun c hc => hpart c (List.mem_reverse.mp hc), ih (List.forall_mem_nil _)⟩
      · rename_i hd
        exact ih (List.forall_mem_cons.mpr ⟨Bool.eq_false_iff.mpr hd, hpart⟩)

theorem not_mem_of_mem_parts {mark : Char} (h : part ∈ parts (· == mark) s) : mark ∉ part := by
  intro hmark
  have hfalse := forall_mem_cutAt (List.forall_mem_nil _) part h mark hmark
  rw [beq_self_eq_true] at hfalse
  cases hfalse

/-! ## Items -/

/-- What an item of a list may be. -/
structure IsItem (w : List Char) : Prop extends Trimmed w where
  ne_nil : w ≠ []
  comma : ',' ∉ w

theorem isItem_of_mem_items (h : w ∈ items s) : IsItem w := by
  obtain ⟨hw, hne⟩ := List.mem_filter.mp h
  obtain ⟨part, hpart, rfl⟩ := List.mem_map.mp hw
  exact {
    toTrimmed := trimmed_trim part
    ne_nil := by simpa using hne
    comma := fun hcomma => not_mem_of_mem_parts hpart (trim_subset part hcomma) }

/-- The pieces between the commas of a list: one for each item, with blanks around it, and blank ones
anywhere. -/
inductive Pieces : (items pieces : List (List Char)) → Prop
  | nil : Pieces [] []
  | item {w before after : List Char} {ws ps : List (List Char)} : IsItem w →
      (∀ c ∈ before, isBlank c = true) → (∀ c ∈ after, isBlank c = true) → Pieces ws ps →
      Pieces (w :: ws) ((before ++ w ++ after) :: ps)
  | blank {gap : List Char} {ws ps : List (List Char)} : (∀ c ∈ gap, isBlank c = true) →
      Pieces ws ps → Pieces ws (gap :: ps)

variable {ws ps : List (List Char)}

theorem comma_not_mem_of_blank (h : ∀ c ∈ s, isBlank c = true) : ',' ∉ s :=
  fun hcomma => absurd (h ',' hcomma) (by decide)

theorem Pieces.comma_not_mem (h : Pieces ws ps) : ∀ piece ∈ ps, ',' ∉ piece := by
  induction h with
  | nil => exact List.forall_mem_nil _
  | item hw hbefore hafter _ ih =>
      refine List.forall_mem_cons.mpr ⟨?_, ih⟩
      simp only [List.mem_append, not_or]
      exact ⟨⟨comma_not_mem_of_blank hbefore, hw.comma⟩, comma_not_mem_of_blank hafter⟩
  | blank hgap _ ih => exact List.forall_mem_cons.mpr ⟨comma_not_mem_of_blank hgap, ih⟩

theorem Pieces.filter_map_trim (h : Pieces ws ps) :
    (ps.map trim).filter (fun item => !item.isEmpty) = ws := by
  induction h with
  | nil => rfl
  | item hw hbefore hafter _ ih =>
      have hitem := List.isEmpty_eq_false_iff.mpr hw.ne_nil
      rw [List.map_cons, hw.trim_eq hw.ne_nil hbefore hafter, List.filter_cons, hitem, ih]
      rfl
  | blank hgap _ ih =>
      rw [List.map_cons, trim_of_blank hgap]
      exact ih

theorem Pieces.items_eq (h : Pieces ws ps) : items ([','].intercalate ps) = ws := by
  by_cases hps : ps = []
  · -- a text without pieces is one blank piece
    subst hps
    cases h
    rfl
  · rw [items, parts_eq_splitOn, List.splitOn_intercalate ',' h.comma_not_mem hps]
    exact h.filter_map_trim

/-- Items are their own pieces. -/
theorem pieces_self (h : ∀ w ∈ ws, IsItem w) : Pieces ws ws := by
  induction ws with
  | nil => exact .nil
  | cons w ws ih =>
      obtain ⟨hw, hws⟩ := List.forall_mem_cons.mp h
      have hrest := Pieces.item hw (List.forall_mem_nil _) (List.forall_mem_nil _) (ih hws)
      rwa [List.nil_append, List.append_nil] at hrest

theorem map_toList_listItems (s : String) : (listItems s).map String.toList = items s.toList := by
  rw [listItems, List.map_map]
  exact (List.map_congr_left fun _ _ => String.toList_ofList).trans (List.map_id _)

theorem listItems_eq {ws ps : List String} (h : Pieces (ws.map String.toList) (ps.map String.toList)) :
    listItems (",".intercalate ps) = ws := by
  have htext : (",".intercalate ps).toList = [','].intercalate (ps.map String.toList) :=
    String.toList_intercalate
  rw [listItems, htext, h.items_eq, List.map_map]
  exact (List.map_congr_left fun _ _ => String.ofList_toList).trans (List.map_id _)

/-- Reading a list and writing it with commas undo each other. What is read are items, which are read again
when commas are written between them; and items are read from any text that writes them with commas, in
their order, whatever blanks stand around the commas and wherever blank pieces stand. -/
theorem listItems_pieces :
    (∀ s : String, (∀ w ∈ listItems s, IsItem w.toList) ∧
      listItems (",".intercalate (listItems s)) = listItems s) ∧
    (∀ ws : List String, (∀ w ∈ ws, IsItem w.toList) → listItems (",".intercalate ws) = ws) ∧
    ∀ ws ps : List String, Pieces (ws.map String.toList) (ps.map String.toList) →
      listItems (",".intercalate ps) = ws := by
  have hself {ws : List String} (h : ∀ w ∈ ws, IsItem w.toList) : listItems (",".intercalate ws) = ws :=
    listItems_eq (pieces_self (List.forall_mem_map.mpr h))
  refine ⟨fun s => ?_, fun ws => hself, fun ws ps => listItems_eq⟩
  have hitems : ∀ w ∈ listItems s, IsItem w.toList := by
    intro w hw
    refine isItem_of_mem_items (s := s.toList) ?_
    rw [← map_toList_listItems]
    exact List.mem_map_of_mem hw
  exact ⟨hitems, hself hitems⟩

/-- The first item has an ideographic space behind it, and two blank pieces follow. -/
theorem listItems_pieces_ragged :
    let ws := ["manifest", "jexec"]
    let ps := [" manifest\u3000", "", "\t", "jexec"]
    (∀ w ∈ ws, IsItem w.toList) ∧ listItems "manifest,jexec" = ws ∧
    Pieces (ws.map String.toList) (ps.map String.toList) ∧
    listItems " manifest\u3000,,\t,jexec" = ws := by
  intro ws ps
  obtain ⟨-, hplain, hpieces⟩ := listItems_pieces
  have hmanifest : IsItem "manifest".toList := ⟨⟨rfl, rfl⟩, by decide, by decide⟩
  have hguard : IsItem "jexec".toList := ⟨⟨rfl, rfl⟩, by decide, by decide⟩
  have hitems : ∀ w ∈ ws, IsItem w.toList := by
    simpa only [ws, List.forall_mem_cons] using ⟨hmanifest, hguard, List.forall_mem_nil _⟩
  have hlast : Pieces ["jexec".toList] ["jexec".toList] :=
    pieces_self (List.forall_mem_singleton.mpr hguard)
  have hragged : Pieces (ws.map String.toList) (ps.map String.toList) :=
    @Pieces.item _ [' '] ['\u3000'] _ _ hmanifest (List.forall_mem_singleton.mpr rfl)
      (List.forall_mem_singleton.mpr rfl)
      (.blank (List.forall_mem_nil _) (.blank (List.forall_mem_singleton.mpr rfl) hlast))
  exact ⟨hitems, hplain ws hitems, hragged, hpieces ws ps hragged⟩

end ExtensionLint.Text
