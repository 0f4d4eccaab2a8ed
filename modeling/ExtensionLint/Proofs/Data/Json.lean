import Mathlib
import ExtensionLint.Data.Json

/-!
# What is written is read back

A value may be spelled in many ways, with white space between its parts. Each of them is read as that
value, and both writers spell what they write (`parse?_write`, `parse?_writeIndented`).
-/
namespace ExtensionLint.Data.Json

/-! ## Texts -/

/-- How a character is escaped: by a letter, by its number, or not at all. -/
theorem escapeChar_cases (c : Char) :
    (∃ e, escape? e = some c ∧ escapeChar c = ['\\', e]) ∨
    (c.toNat < 0x20 ∧ escapeChar c = ['\\', 'u', '0', '0'] ++ controlDigits c) ∨
    (c ≠ '"' ∧ c ≠ '\\' ∧ 0x20 ≤ c.toNat ∧ escapeChar c = [c]) := by
  by_cases hletter : c ∈ ['"', '\\', '\x08', '\x0c', '\n', '\r', '\t']
  · simp only [List.mem_cons, List.not_mem_nil, or_false] at hletter
    rcases hletter with rfl | rfl | rfl | rfl | rfl | rfl | rfl <;> exact .inl ⟨_, rfl, rfl⟩
  · simp only [List.mem_cons, List.not_mem_nil, or_false, not_or] at hletter
    obtain ⟨hquote, hback, hb, hf, hn, hr, ht⟩ := hletter
    simp only [escapeChar, beq_iff_eq, hquote, hback, hb, hf, hn, hr, ht, if_false]
    split
    next hcontrol => exact .inr (.inl ⟨hcontrol, rfl⟩)
    next hcontrol => exact .inr (.inr ⟨hquote, hback, Nat.le_of_not_lt hcontrol, rfl⟩)

theorem hexDigit?_digitChar : ∀ n < 16, hexDigit? (Nat.digitChar n) = some n := by decide

theorem hex?_controlDigits {c : Char} (h : c.toNat < 0x20) :
    hex? ('0' :: '0' :: controlDigits c) = some c.toNat := by
  have hzero : hexDigit? '0' = some 0 := rfl
  simp only [hex?, controlDigits, List.foldlM_cons, List.foldlM_nil, hzero,
    hexDigit?_digitChar (c.toNat / 16) (by omega), hexDigit?_digitChar (c.toNat % 16) (by omega),
    Option.map_some, Option.bind_eq_bind, Option.bind_some, Option.pure_def, Option.some.injEq]
  omega

theorem stringBody_escapeChar (c : Char) (s read : List Char) :
    stringBody (escapeChar c ++ s) (some read) = stringBody s (some (c :: read)) := by
  rcases escapeChar_cases c with ⟨e, hletter, h⟩ | ⟨hcontrol, h⟩ | ⟨hquote, hback, hplain, h⟩ <;> rw [h]
  · have hu : e ≠ 'u' := by
      rintro rfl
      cases hletter
    simp [stringBody, hletter, hu]
  · have hhex := hex?_controlDigits hcontrol
    have hlow : isLowSurrogate c.toNat = false := by
      simp only [isLowSurrogate, Bool.and_eq_false_iff, decide_eq_false_iff_not]
      omega
    have hhigh : isHighSurrogate c.toNat = false := by
      simp only [isHighSurrogate, Bool.and_eq_false_iff, decide_eq_false_iff_not]
      omega
    simp only [controlDigits] at hhex
    simp [controlDigits, stringBody, hhex, hlow, hhigh]
  · rw [List.singleton_append, stringBody.eq_def]
    split <;> simp_all

/-- The reader undoes the writing of a text, up to the closing quote. -/
theorem stringBody_flatMap (s : List Char) (read rest : List Char) :
    stringBody (s.flatMap escapeChar ++ '"' :: rest) (some read) =
      some (some (read.reverse ++ s), rest) := by
  induction s generalizing read with
  | nil => simp [stringBody]
  | cons c s ih =>
      rw [List.flatMap_cons, List.append_assoc, stringBody_escapeChar, ih]
      simp

/-! ## Numbers -/

/-- What may stand behind a number. -/
def EndsNumber (rest : List Char) : Prop :=
  ∀ c ∈ rest.head?, c.isDigit = false ∧ c ≠ '.' ∧ c ≠ 'e' ∧ c ≠ 'E'

theorem decimal_toDigits (n : Nat) : decimal (Nat.toDigits 10 n) = n := by
  have hstep : withDigit = fun sofar c => 10 * sofar + (c.toNat - '0'.toNat) := by
    funext sofar c
    rw [withDigit, Nat.mul_comm]
  rw [decimal, hstep, ← Nat.ofDigitChars_eq_foldl, Nat.ofDigitChars_ten_toDigits]

theorem head?_toDigits {n : Nat} (h : n ≠ 0) : (Nat.toDigits 10 n).head? ≠ some '0' := by
  induction n using Nat.strongRecOn with
  | ind n ih =>
      by_cases hlt : n < 10
      · rw [Nat.toDigits_of_lt_base hlt]
        simpa using h
      · have hle : 10 ≤ n := Nat.le_of_not_lt hlt
        rw [Nat.toDigits_of_base_le (by decide) hle,
          List.head?_append_of_ne_nil _ Nat.toDigits_ne_nil]
        exact ih (n / 10) (by omega) (by omega)

theorem isDigit_of_mem_toDigits {n : Nat} {c : Char} (h : c ∈ Nat.toDigits 10 n) : c.isDigit = true :=
  Nat.isDigit_of_mem_toDigits (by decide) (by decide) h

theorem exists_toDigits_eq_cons (n : Nat) : ∃ c t, Nat.toDigits 10 n = c :: t ∧ c.isDigit = true := by
  obtain ⟨c, t, h⟩ := List.exists_cons_of_ne_nil (Nat.toDigits_ne_nil (b := 10) (n := n))
  exact ⟨c, t, h, isDigit_of_mem_toDigits (h ▸ List.mem_cons_self)⟩

theorem digits_append {ds rest : List Char} (hds : ∀ c ∈ ds, c.isDigit = true)
    (hrest : EndsNumber rest) : digits (ds ++ rest) = (ds, rest) := by
  have htake : rest.takeWhile Char.isDigit = [] := by
    cases rest with
    | nil => rfl
    | cons c t => rw [List.takeWhile_cons_of_neg (by simp [(hrest c rfl).1])]
  have hdrop : rest.dropWhile Char.isDigit = rest := by
    cases rest with
    | nil => rfl
    | cons c t => rw [List.dropWhile_cons_of_neg (by simp [(hrest c rfl).1])]
  rw [digits, List.span_eq_takeWhile_dropWhile, List.takeWhile_append_of_pos hds,
    List.dropWhile_append_of_pos hds, htake, hdrop, List.append_nil]

theorem fractionPart?_of_endsNumber {rest : List Char} (h : EndsNumber rest) :
    fractionPart? rest = some ([], rest) := by
  unfold fractionPart?
  split
  next t => exact absurd rfl (h '.' rfl).2.1
  next => rfl

theorem exponentPart?_of_endsNumber {rest : List Char} (h : EndsNumber rest) :
    exponentPart? rest = some (none, rest) := by
  cases rest with
  | nil => rfl
  | cons c t =>
      obtain ⟨-, -, he, hE⟩ := h c rfl
      simp [exponentPart?, he, hE]

theorem number_toDigits {n : Nat} (hn : n < UInt64.size) {rest : List Char} (hrest : EndsNumber rest) :
    number (Nat.toDigits 10 n ++ rest) = some (.integer n, rest) := by
  have hvalue : numberValue false (Nat.toDigits 10 n) [] none = .integer n := by
    simp [numberValue, decimal_toDigits, hn]
  have hzero : ¬ ((Nat.toDigits 10 n).head? = some '0' ∧ 1 < (Nat.toDigits 10 n).length) := by
    rintro ⟨hhead, hlength⟩
    by_cases h : n = 0
    · rw [h, Nat.toDigits_zero] at hlength
      exact absurd hlength (by decide)
    · exact head?_toDigits h hhead
  obtain ⟨c, t, hcons, hc⟩ := exists_toDigits_eq_cons n
  have hminus : c ≠ '-' := by
    rintro rfl
    exact absurd hc (by decide)
  have hread := digits_append (fun c => isDigit_of_mem_toDigits (n := n)) hrest
  rw [hcons] at hread hzero hvalue ⊢
  rw [List.cons_append] at hread ⊢
  unfold number
  split
  next sign text hsign =>
    split at hsign
    next heq => exact absurd (List.cons.inj heq).1 hminus
    next =>
      cases hsign
      simp only [hread, List.isEmpty_cons, hzero, Bool.false_eq_true, or_self, if_false,
        fractionPart?_of_endsNumber hrest, exponentPart?_of_endsNumber hrest, hvalue,
        Option.bind_eq_bind, Option.bind_some, Option.pure_def]

/-! ## White space -/

def IsGap (s : List Char) : Prop := ∀ c ∈ s, isSpace c = true

theorem isGap_nil : IsGap [] := List.forall_mem_nil _

theorem skipSpace_gap {gap : List Char} (h : IsGap gap) (s : List Char) :
    skipSpace (gap ++ s) = skipSpace s := List.dropWhile_append_of_pos h

theorem skipSpace_cons {c : Char} (h : isSpace c = false) (s : List Char) :
    skipSpace (c :: s) = c :: s := List.dropWhile_cons_of_neg (by simp [h])

theorem isSpace_of_isDigit {c : Char} (h : c.isDigit = true) : isSpace c = false := by
  rw [Bool.eq_false_iff]
  intro hspace
  simp only [isSpace, Bool.or_eq_true, beq_iff_eq] at hspace
  rcases hspace with ((rfl | rfl) | rfl) | rfl <;> exact absurd h (by decide)

theorem skipSpace_skipSpace (s : List Char) : skipSpace (skipSpace s) = skipSpace s :=
  List.dropWhile_idempotent _ s

theorem value_skipSpace (n : Nat) (s : List Char) : value n (skipSpace s) = value n s := by
  cases n with
  | zero => rfl
  | succ n => simp only [value, skipSpace_skipSpace]

theorem listItems_skipSpace (n : Nat) (s : List Char) (done : List Value) :
    listItems n (skipSpace s) done = listItems n s done := by
  cases n with
  | zero => rfl
  | succ n => simp only [listItems, value_skipSpace]

theorem tableEntries_skipSpace (n : Nat) (s : List Char) (done : List (String × Value))
    (readable : Bool) : tableEntries n (skipSpace s) done readable = tableEntries n s done readable := by
  cases n with
  | zero => rfl
  | succ n => simp only [tableEntries, skipSpace_skipSpace]

theorem value_gap {gap : List Char} (h : IsGap gap) (n : Nat) (s : List Char) :
    value n (gap ++ s) = value n s := by
  rw [← value_skipSpace, skipSpace_gap h, value_skipSpace]

theorem endsNumber_cons {c : Char} (h : c ∈ [',', ']', '}']) (s : List Char) : EndsNumber (c :: s) := by
  intro d hd
  cases hd
  simp only [List.mem_cons, List.not_mem_nil, or_false] at h
  rcases h with rfl | rfl | rfl <;> decide

theorem EndsNumber.gap {gap rest : List Char} (h : EndsNumber rest) (hgap : IsGap gap) :
    EndsNumber (gap ++ rest) := by
  cases gap with
  | nil => exact h
  | cons c gap =>
      intro d hd
      cases hd
      have hc := hgap c List.mem_cons_self
      simp only [isSpace, Bool.or_eq_true, beq_iff_eq] at hc
      rcases hc with ((rfl | rfl) | rfl) | rfl <;> decide

/-! ## Spellings -/

mutual
/-- The text spells the value. -/
inductive Spells : Value → List Char → Prop
  | null : Spells .null "null".toList
  | yes : Spells (.bool true) "true".toList
  | no : Spells (.bool false) "false".toList
  | natural {n : Nat} (h : n < UInt64.size) : Spells (.integer n) (Nat.toDigits 10 n)
  | text (s : String) : Spells (.text s) (writeText s)
  | noItems {gap : List Char} (hgap : IsGap gap) : Spells (.list []) ('[' :: (gap ++ [']']))
  | list {vs : List Value} {s : List Char} (h : SpellsItems vs s) :
      Spells (.list vs) ('[' :: (s ++ [']']))
  | noEntries {gap : List Char} (hgap : IsGap gap) : Spells (.table []) ('{' :: (gap ++ ['}']))
  | table {es : List (String × Value)} {s : List Char} (h : SpellsEntries es s) :
      Spells (.table es) ('{' :: (s ++ ['}']))

/-- The text spells the items of a list, with commas between them. -/
inductive SpellsItems : List Value → List Char → Prop
  | last {v : Value} {before s after : List Char} (hbefore : IsGap before) (h : Spells v s)
      (hafter : IsGap after) : SpellsItems [v] (before ++ (s ++ after))
  | more {v : Value} {vs : List Value} {before s after t : List Char} (hbefore : IsGap before)
      (h : Spells v s) (hafter : IsGap after) (ht : SpellsItems vs t) :
      SpellsItems (v :: vs) (before ++ (s ++ (after ++ ',' :: t)))

inductive SpellsEntries : List (String × Value) → List Char → Prop
  | last {v : Value} {before colon s after : List Char} (key : String) (hbefore : IsGap before)
      (hcolon : IsGap colon) (h : Spells v s) (hafter : IsGap after) :
      SpellsEntries [(key, v)] (before ++ (writeText key ++ ':' :: (colon ++ (s ++ after))))
  | more {v : Value} {es : List (String × Value)} {before colon s after t : List Char} (key : String)
      (hbefore : IsGap before) (hcolon : IsGap colon) (h : Spells v s) (hafter : IsGap after)
      (ht : SpellsEntries es t) :
      SpellsEntries ((key, v) :: es)
        (before ++ (writeText key ++ ':' :: (colon ++ (s ++ (after ++ ',' :: t)))))
end

/-- A spelling begins with no white space, and not with the end of a list. -/
theorem Spells.exists_head {v : Value} {s : List Char} (h : Spells v s) :
    ∃ c t, s = c :: t ∧ isSpace c = false ∧ c ≠ ']' := by
  cases h with
  | natural hn =>
      obtain ⟨c, t, hcons, hc⟩ := exists_toDigits_eq_cons _
      refine ⟨c, t, hcons, isSpace_of_isDigit hc, ?_⟩
      rintro rfl
      exact absurd hc (by decide)
  | _ => exact ⟨_, _, rfl, rfl, by decide⟩

theorem Spells.length_pos {v : Value} {s : List Char} (h : Spells v s) : 0 < s.length := by
  obtain ⟨c, t, rfl, -⟩ := h.exists_head
  exact Nat.succ_pos _

theorem Spells.skipSpace_eq {v : Value} {s : List Char} (h : Spells v s) {before : List Char}
    (hbefore : IsGap before) (rest : List Char) :
    ∃ c t, skipSpace (before ++ (s ++ rest)) = c :: t ∧ c ≠ ']' := by
  obtain ⟨c, t, rfl, hspace, hc⟩ := h.exists_head
  exact ⟨c, t ++ rest, by rw [skipSpace_gap hbefore, List.cons_append, skipSpace_cons hspace], hc⟩

theorem SpellsItems.skipSpace_eq {vs : List Value} {s : List Char} (h : SpellsItems vs s)
    (rest : List Char) : ∃ c t, skipSpace (s ++ rest) = c :: t ∧ c ≠ ']' := by
  cases h with
  | last hbefore h _ =>
      rw [List.append_assoc, List.append_assoc]
      exact h.skipSpace_eq hbefore _
  | more hbefore h _ _ =>
      rw [List.append_assoc, List.append_assoc]
      exact h.skipSpace_eq hbefore _

theorem SpellsEntries.skipSpace_eq {es : List (String × Value)} {s : List Char}
    (h : SpellsEntries es s) (rest : List Char) : ∃ c t, skipSpace (s ++ rest) = c :: t ∧ c ≠ '}' := by
  cases h with
  | last key hbefore _ _ _ =>
      rw [List.append_assoc, skipSpace_gap hbefore]
      exact ⟨_, _, skipSpace_cons rfl _, by decide⟩
  | more key hbefore _ _ _ _ =>
      rw [List.append_assoc, skipSpace_gap hbefore]
      exact ⟨_, _, skipSpace_cons rfl _, by decide⟩

/-! ## Reading a spelling -/

theorem value_of_digit {c : Char} (h : c.isDigit = true) (n : Nat) (s : List Char) :
    value (n + 1) (c :: s) = number (c :: s) := by
  rw [value, skipSpace_cons (isSpace_of_isDigit h)]
  split
  all_goals first
    | rfl
    | (next heq =>
        rw [(List.cons.inj heq).1] at h
        exact absurd h (by decide))

theorem stringBody_writeText (s : String) (rest : List Char) :
    stringBody (s.toList.flatMap escapeChar ++ ['"'] ++ rest) (some []) = some (some s.toList, rest) := by
  rw [List.append_assoc]
  exact stringBody_flatMap s.toList [] rest

/-- What is read behind an entry: further ones, or the end of the table. -/
def behindEntry (n : Nat) (done : List (String × Value)) (s : List Char) :
    Option (Value × List Char) :=
  match skipSpace s with
  | ',' :: t => tableEntries n t done true
  | '}' :: t => some (.table done.reverse, t)
  | _ => none

theorem tableEntries_key {before : List Char} (hbefore : IsGap before) (n : Nat) (key : String)
    (t : List Char) (done : List (String × Value)) :
    tableEntries (n + 1) (before ++ (writeText key ++ ':' :: t)) done true =
      (value n t).bind fun read => behindEntry n ((key, read.1) :: done) read.2 := by
  rw [tableEntries, skipSpace_gap hbefore, writeText, List.cons_append, skipSpace_cons rfl]
  simp only [stringBody_writeText, skipSpace_cons (show isSpace ':' = false from rfl),
    Option.getD_some, Option.isSome_some, Bool.and_true, String.ofList_toList, if_true]
  cases value n t <;> rfl

-- Two steps for each character are enough: an item takes one step besides those of its value, and there
-- is a bracket or a comma for it.
mutual
theorem Spells.value_eq {v : Value} {s : List Char} (h : Spells v s) {n : Nat}
    (hn : 2 * s.length ≤ n) {rest : List Char} (hrest : EndsNumber rest) :
    value n (s ++ rest) = some (v, rest) := by
  have hpos := h.length_pos
  obtain ⟨n, rfl⟩ : ∃ m, n = m + 1 := ⟨n - 1, by omega⟩
  match h with
  | .null => rfl
  | .yes => rfl
  | .no => rfl
  | .natural hsize =>
      obtain ⟨c, t, hcons, hc⟩ := exists_toDigits_eq_cons _
      rw [← number_toDigits hsize hrest, hcons, List.cons_append, value_of_digit hc]
  | .text s =>
      rw [writeText, List.cons_append, value, skipSpace_cons rfl]
      simp only [stringBody_writeText, Option.map_some, stringValue, String.ofList_toList]
  | .noItems hgap =>
      rw [List.cons_append, List.append_assoc, value, skipSpace_cons rfl]
      simp only [skipSpace_gap hgap]
      rfl
  | .list hitems =>
      rw [List.length_cons, List.length_append] at hn
      rw [List.cons_append, List.append_assoc, value, skipSpace_cons rfl]
      obtain ⟨c, t, hskip, hc⟩ := hitems.skipSpace_eq ([']'] ++ rest)
      have hread := hitems.listItems_eq (n := n) (by omega) [] rest
      simp only [hskip]
      split
      next heq => exact absurd (List.cons.inj heq).1 hc
      next =>
        rw [← hskip, listItems_skipSpace, List.singleton_append, hread, List.reverse_nil,
          List.nil_append]
  | .noEntries hgap =>
      rw [List.cons_append, List.append_assoc, value, skipSpace_cons rfl]
      simp only [skipSpace_gap hgap]
      rfl
  | .table hentries =>
      rw [List.length_cons, List.length_append] at hn
      rw [List.cons_append, List.append_assoc, value, skipSpace_cons rfl]
      obtain ⟨c, t, hskip, hc⟩ := hentries.skipSpace_eq (['}'] ++ rest)
      have hread := hentries.tableEntries_eq (n := n) (by omega) [] rest
      simp only [hskip]
      split
      next heq => exact absurd (List.cons.inj heq).1 hc
      next =>
        rw [← hskip, tableEntries_skipSpace, List.singleton_append, hread, List.reverse_nil,
          List.nil_append]

theorem SpellsItems.listItems_eq {vs : List Value} {s : List Char} (h : SpellsItems vs s) {n : Nat}
    (hn : 2 * s.length < n) (done : List Value) (rest : List Char) :
    listItems n (s ++ ']' :: rest) done = some (.list (done.reverse ++ vs), rest) := by
  obtain ⟨n, rfl⟩ : ∃ m, n = m + 1 := ⟨n - 1, by omega⟩
  match h with
  | .last hbefore h hafter =>
      simp only [List.length_append] at hn
      have hends := (endsNumber_cons (c := ']') (by decide) rest).gap hafter
      rw [List.append_assoc, List.append_assoc, listItems, value_gap hbefore, h.value_eq (by omega) hends]
      simp only [skipSpace_gap hafter, skipSpace_cons (show isSpace ']' = false from rfl),
        List.reverse_cons]
  | .more hbefore h hafter ht =>
      simp only [List.length_append, List.length_cons] at hn
      have hends (t : List Char) := (endsNumber_cons (c := ',') (by decide) t).gap hafter
      rw [List.append_assoc, List.append_assoc, List.append_assoc, List.cons_append, listItems,
        value_gap hbefore, h.value_eq (by omega) (hends _)]
      simp only [skipSpace_gap hafter, skipSpace_cons (show isSpace ',' = false from rfl)]
      rw [ht.listItems_eq (by omega)]
      simp

theorem SpellsEntries.tableEntries_eq {es : List (String × Value)} {s : List Char}
    (h : SpellsEntries es s) {n : Nat} (hn : 2 * s.length < n) (done : List (String × Value))
    (rest : List Char) :
    tableEntries n (s ++ '}' :: rest) done true = some (.table (done.reverse ++ es), rest) := by
  obtain ⟨n, rfl⟩ : ∃ m, n = m + 1 := ⟨n - 1, by omega⟩
  match h with
  | .last key hbefore hcolon h hafter =>
      simp only [List.length_append, List.length_cons] at hn
      have hends := (endsNumber_cons (c := '}') (by decide) rest).gap hafter
      simp only [List.append_assoc, List.cons_append]
      rw [tableEntries_key hbefore, value_gap hcolon, h.value_eq (by omega) hends]
      simp only [Option.bind_some, behindEntry, skipSpace_gap hafter,
        skipSpace_cons (show isSpace '}' = false from rfl), List.reverse_cons]
  | .more key hbefore hcolon h hafter ht =>
      simp only [List.length_append, List.length_cons] at hn
      have hends (t : List Char) := (endsNumber_cons (c := ',') (by decide) t).gap hafter
      simp only [List.append_assoc, List.cons_append]
      rw [tableEntries_key hbefore, value_gap hcolon, h.value_eq (by omega) (hends _)]
      simp only [Option.bind_some, behindEntry, skipSpace_gap hafter,
        skipSpace_cons (show isSpace ',' = false from rfl)]
      rw [ht.tableEntries_eq (by omega)]
      simp
end

theorem Spells.read?_eq {v : Value} {s : List Char} (h : Spells v s) : read? s = some v := by
  have hend : EndsNumber [] := by simp [EndsNumber]
  have hread := h.value_eq (n := 2 * s.length + 2) (by omega) hend
  rw [List.append_nil] at hread
  rw [read?, hread]
  rfl

/-! ## Writing -/

/-- A value that documents can express. -/
inductive Expressible : Value → Prop
  | null : Expressible .null
  | bool (b : Bool) : Expressible (.bool b)
  | natural {n : Nat} (h : n < UInt64.size) : Expressible (.integer n)
  | text (s : String) : Expressible (.text s)
  | list {vs : List Value} (h : ∀ v ∈ vs, Expressible v) : Expressible (.list vs)
  | table {es : List (String × Value)} (h : ∀ e ∈ es, Expressible e.2) : Expressible (.table es)

theorem toList_toString (n : Nat) : (toString (n : Int)).toList = Nat.toDigits 10 n :=
  Nat.toList_repr

theorem SpellsItems.append_gap {vs : List Value} {s gap : List Char} (h : SpellsItems vs s)
    (hgap : IsGap gap) : SpellsItems vs (s ++ gap) := by
  match h with
  | .last hbefore h hafter =>
      rw [List.append_assoc, List.append_assoc]
      exact .last hbefore h (List.forall_mem_append.2 ⟨hafter, hgap⟩)
  | .more hbefore h hafter ht =>
      simp only [List.append_assoc, List.cons_append]
      exact .more hbefore h hafter (ht.append_gap hgap)

theorem SpellsEntries.append_gap {es : List (String × Value)} {s gap : List Char}
    (h : SpellsEntries es s) (hgap : IsGap gap) : SpellsEntries es (s ++ gap) := by
  match h with
  | .last key hbefore hcolon h hafter =>
      simp only [List.append_assoc, List.cons_append]
      exact .last key hbefore hcolon h (List.forall_mem_append.2 ⟨hafter, hgap⟩)
  | .more key hbefore hcolon h hafter ht =>
      simp only [List.append_assoc, List.cons_append]
      exact .more key hbefore hcolon h hafter (ht.append_gap hgap)

/-- Items that are written one after the other, each behind a gap. -/
theorem spellsItems_of_write {write : Value → List Char} {items : List Value → List Char}
    {gap : List Char} (hgap : IsGap gap) (hlast : ∀ v, items [v] = gap ++ write v)
    (hmore : ∀ v w vs, items (v :: w :: vs) = gap ++ (write v ++ ',' :: items (w :: vs)))
    {vs : List Value} (hne : vs ≠ []) (h : ∀ v ∈ vs, Spells v (write v)) :
    SpellsItems vs (items vs) := by
  induction vs with
  | nil => exact absurd rfl hne
  | cons v vs ih =>
      have hv := h v List.mem_cons_self
      cases vs with
      | nil =>
          rw [hlast, ← List.append_nil (write v)]
          exact .last hgap hv isGap_nil
      | cons w vs =>
          rw [hmore]
          exact .more hgap hv isGap_nil (ih (by simp) fun w hw => h w (List.mem_cons_of_mem v hw))

theorem spellsEntries_of_write {write : Value → List Char}
    {entries : List (String × Value) → List Char} {gap colon : List Char} (hgap : IsGap gap)
    (hcolon : IsGap colon)
    (hlast : ∀ key v, entries [(key, v)] = gap ++ (writeText key ++ ':' :: (colon ++ write v)))
    (hmore : ∀ key v e es, entries ((key, v) :: e :: es) =
      gap ++ (writeText key ++ ':' :: (colon ++ (write v ++ ',' :: entries (e :: es)))))
    {es : List (String × Value)} (hne : es ≠ []) (h : ∀ e ∈ es, Spells e.2 (write e.2)) :
    SpellsEntries es (entries es) := by
  induction es with
  | nil => exact absurd rfl hne
  | cons e es ih =>
      obtain ⟨key, v⟩ := e
      have hv : Spells v (write v) := h (key, v) List.mem_cons_self
      cases es with
      | nil =>
          rw [hlast, ← List.append_nil (write v)]
          exact .last key hgap hcolon hv isGap_nil
      | cons e es =>
          rw [hmore]
          exact .more key hgap hcolon hv isGap_nil
            (ih (by simp) fun e he => h e (List.mem_cons_of_mem (key, v) he))

theorem Expressible.spells_compact {v : Value} (h : Expressible v) : Spells v (compact v) := by
  induction h with
  | null => exact .null
  | bool b =>
      cases b with
      | false => exact .no
      | true => exact .yes
  | natural h =>
      rw [compact, toList_toString]
      exact .natural h
  | text s => exact .text s
  | @list vs _ ih =>
      cases vs with
      | nil => exact .noItems isGap_nil
      | cons v vs =>
          exact .list (spellsItems_of_write isGap_nil (fun _ => rfl) (fun _ _ _ => rfl) (by simp) ih)
  | @table es _ ih =>
      cases es with
      | nil => exact .noEntries isGap_nil
      | cons e es =>
          exact .table (spellsEntries_of_write isGap_nil isGap_nil (fun _ _ => rfl)
            (fun _ _ _ _ => rfl) (by simp) ih)

theorem isGap_newLine (level : Nat) : IsGap (newLine level) := by
  intro c hc
  rw [newLine, List.mem_cons, List.mem_replicate] at hc
  rcases hc with rfl | ⟨-, rfl⟩ <;> rfl

theorem Expressible.spells_indented {v : Value} (h : Expressible v) (level : Nat) :
    Spells v (indented level v) := by
  induction h generalizing level with
  | null => exact .null
  | bool b =>
      cases b with
      | false => exact .no
      | true => exact .yes
  | natural h =>
      rw [indented, toList_toString]
      exact .natural h
  | text s => exact .text s
  | @list vs _ ih =>
      cases vs with
      | nil => exact .noItems isGap_nil
      | cons v vs =>
          refine .list (SpellsItems.append_gap ?_ (isGap_newLine level))
          exact spellsItems_of_write (isGap_newLine (level + 1)) (fun _ => rfl)
            (fun _ _ _ => List.append_assoc ..) (by simp) fun v hv => ih v hv (level + 1)
  | @table es _ ih =>
      cases es with
      | nil => exact .noEntries isGap_nil
      | cons e es =>
          refine .table (SpellsEntries.append_gap ?_ (isGap_newLine level))
          have hcolon : IsGap [' '] := List.forall_mem_singleton.2 rfl
          refine spellsEntries_of_write (isGap_newLine (level + 1)) hcolon
            (fun _ _ => ?_) (fun _ _ _ _ => ?_) (by simp) fun e he => ih e he (level + 1)
          · simp [indentedEntries]
          · simp [indentedEntries]

theorem parse?_write {v : Value} (h : Expressible v) : parse? (write v) = some v := by
  rw [parse?, write, String.toList_ofList]
  exact h.spells_compact.read?_eq

theorem parse?_writeIndented {v : Value} (h : Expressible v) : parse? (writeIndented v) = some v := by
  rw [parse?, writeIndented, String.toList_ofList]
  exact (h.spells_indented 0).read?_eq

end ExtensionLint.Data.Json
