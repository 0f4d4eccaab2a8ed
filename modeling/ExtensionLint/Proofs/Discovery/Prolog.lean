import Mathlib.Data.List.Infix
import ExtensionLint.Proofs.Discovery.Head

/-!
# Prologs

A prolog is made of blanks, instructions, comments and declarations. Of the readings of a prolog the
preferred one takes it as it is made (`PrologItem.head?_readings`), so that the name behind it decides
(`scanHead_behind_prolog`).
-/

namespace ExtensionLint.Discovery

open Text

theorem not_infix_iff {m s : List Char} : (∀ t ∈ s.tails, ¬ m <+: t) ↔ ¬ m <:+: s := by
  simp only [List.infix_iff_prefix_suffix, List.mem_tails, not_exists, not_and]
  exact forall_congr' fun t => ⟨fun h hprefix hsuffix => h hsuffix hprefix,
    fun h hsuffix hprefix => h hprefix hsuffix⟩

/-- What may stand before the root. -/
inductive PrologItem
  | blank (c : Char)
  | instruction (body : List Char)
  | comment (body : List Char)
  | declaration (body : List Char)

namespace PrologItem

def text : PrologItem → List Char
  | blank c => [c]
  | instruction body => "<?".toList ++ (body ++ "?>".toList)
  | comment body => "<!--".toList ++ (body ++ "-->".toList)
  | declaration body => "<!".toList ++ (body ++ ">".toList)

/-- An item ends where it first can, and what begins like a comment is one. -/
def WellFormed : PrologItem → Prop
  | blank c => isBlank c = true
  | instruction body => ¬ "?>".toList <:+: body
  | comment body => ¬ "-->".toList <:+: body
  | declaration body => ¬ "--".toList <+: body ∧ '>' ∉ body

instance : (item : PrologItem) → Decidable item.WellFormed
  | blank c => inferInstanceAs (Decidable (isBlank c = true))
  | instruction _ => decidable_of_iff _ not_infix_iff
  | comment _ => decidable_of_iff _ not_infix_iff
  | declaration body => inferInstanceAs (Decidable (¬ "--".toList <+: body ∧ '>' ∉ body))

end PrologItem

/-! ## Preferred readings -/

theorem head?_readings_cons {c : Char} {s : List Char} {stage next behind : Stage} {others : List Stage}
    (hstep : stage.step c = next :: others) (h : (readings s next).head? = some behind) :
    (readings (c :: s) stage).head? = some behind := by
  rw [readings, hstep, List.flatMap_cons, List.head?_append, h, Option.some_or]

theorem head?_readings_append {s r : List Char} {stage next behind : Stage}
    (h : (readings s stage).head? = some next) (h' : (readings r next).head? = some behind) :
    (readings (s ++ r) stage).head? = some behind := by
  obtain ⟨others, hothers⟩ := List.head?_eq_some_iff.mp h
  rw [readings_append, hothers, List.flatMap_cons, List.head?_append, h', Option.some_or]

/-- The preferred reading finds the name if it finds one. -/
theorem found?_of_head? {s r name : List Char} {stage next : Stage}
    (h : (readings s stage).head? = some next) (hname : found? r next = some name) :
    found? (s ++ r) stage = some name := by
  obtain ⟨others, hothers⟩ := List.head?_eq_some_iff.mp h
  rw [found?_append, hothers, List.findSome?_cons, hname]

theorem not_infix_of_cons {m s : List Char} {c : Char} (h : ¬ m <:+: c :: s) : ¬ m <:+: s :=
  fun hwithin => h (hwithin.trans (List.suffix_cons c s).isInfix)

theorem head?_readings_instruction (body : List Char) :
    (¬ "?>".toList <:+: body →
      (readings (body ++ "?>".toList) .instruction).head? = some .between) ∧
    (¬ "?>".toList <:+: '?' :: body →
      (readings (body ++ "?>".toList) .instructionMark).head? = some .between) := by
  -- in the second part a question mark has been read that the body does not continue to an end
  induction body with
  | nil => exact ⟨fun _ => by decide, fun _ => by decide⟩
  | cons c body ih =>
      constructor
      · intro h
        by_cases hc : c = '?'
        · subst hc
          exact head?_readings_cons rfl (ih.2 h)
        · exact head?_readings_cons (if_neg hc) (ih.1 (not_infix_of_cons h))
      · intro h
        have hend : c ≠ '>' := by
          rintro rfl
          exact h ⟨[], body, rfl⟩
        by_cases hc : c = '?'
        · subst hc
          exact head?_readings_cons rfl (ih.2 (not_infix_of_cons h))
        · exact head?_readings_cons ((if_neg hend).trans (if_neg hc))
            (ih.1 (not_infix_of_cons (not_infix_of_cons h)))

theorem head?_readings_comment (body : List Char) :
    (¬ "-->".toList <:+: body →
      (readings (body ++ "-->".toList) .comment).head? = some .between) ∧
    (¬ "-->".toList <:+: '-' :: body →
      (readings (body ++ "-->".toList) .commentDash).head? = some .between) ∧
    (¬ "-->".toList <:+: '-' :: '-' :: body →
      (readings (body ++ "-->".toList) .commentDashes).head? = some .between) := by
  induction body with
  | nil => exact ⟨fun _ => by decide, fun _ => by decide, fun _ => by decide⟩
  | cons c body ih =>
      obtain ⟨hcomment, hdash, hdashes⟩ := ih
      refine ⟨fun h => ?_, fun h => ?_, fun h => ?_⟩
      · by_cases hc : c = '-'
        · subst hc
          exact head?_readings_cons rfl (hdash h)
        · exact head?_readings_cons (if_neg hc) (hcomment (not_infix_of_cons h))
      · by_cases hc : c = '-'
        · subst hc
          exact head?_readings_cons rfl (hdashes h)
        · exact head?_readings_cons (if_neg hc) (hcomment (not_infix_of_cons (not_infix_of_cons h)))
      · have hend : c ≠ '>' := by
          rintro rfl
          exact h ⟨[], body, rfl⟩
        by_cases hc : c = '-'
        · subst hc
          exact head?_readings_cons rfl (hdashes (not_infix_of_cons h))
        · exact head?_readings_cons ((if_neg hend).trans (if_neg hc))
            (hcomment (not_infix_of_cons (not_infix_of_cons (not_infix_of_cons h))))

theorem head?_readings_declaration {body : List Char} (h : '>' ∉ body) :
    (readings (body ++ ">".toList) .declaration).head? = some .between := by
  induction body with
  | nil => decide
  | cons c body ih =>
      have hc : c ≠ '>' := fun hc => h (hc ▸ List.mem_cons_self)
      exact head?_readings_cons (if_neg hc) (ih fun hmem => h (List.mem_cons_of_mem c hmem))

theorem head?_readings_marked {body : List Char} (hdashes : ¬ "--".toList <+: body)
    (h : '>' ∉ body) : (readings (body ++ ">".toList) .marked).head? = some .between := by
  match body with
  | [] => decide
  | c :: body =>
      obtain ⟨hc, hbody⟩ := List.ne_and_not_mem_of_not_mem_cons h
      by_cases hdash : c = '-'
      · subst hdash
        match body with
        | [] => decide
        | d :: body =>
            obtain ⟨hd, hbody⟩ := List.ne_and_not_mem_of_not_mem_cons hbody
            have hsecond : d ≠ '-' := by
              rintro rfl
              exact hdashes ⟨body, rfl⟩
            have hstep : Stage.dashed.step d = [.declaration] :=
              (if_neg hsecond).trans (if_neg (Ne.symm hd))
            exact head?_readings_cons rfl
              (head?_readings_cons hstep (head?_readings_declaration hbody))
      · exact head?_readings_cons ((if_neg hdash).trans (if_neg (Ne.symm hc)))
          (head?_readings_declaration hbody)

/-- The preferred reading of an item ends where the item ends. -/
theorem PrologItem.head?_readings {item : PrologItem} (h : item.WellFormed) :
    (readings item.text .between).head? = some .between := by
  cases item with
  | blank c => exact head?_readings_cons (if_pos h) rfl
  | instruction body =>
      exact head?_readings_append (s := "<?".toList) (by decide) ((head?_readings_instruction body).1 h)
  | comment body =>
      exact head?_readings_append (s := "<!--".toList) (by decide) ((head?_readings_comment body).1 h)
  | declaration body =>
      exact head?_readings_append (s := "<!".toList) (by decide) (head?_readings_marked h.1 h.2)

theorem head?_readings_prolog {items : List PrologItem} (h : ∀ item ∈ items, item.WellFormed) :
    (readings (items.flatMap PrologItem.text) .between).head? = some .between := by
  induction items with
  | nil => rfl
  | cons item items ih =>
      obtain ⟨hitem, hitems⟩ := List.forall_mem_cons.mp h
      rw [List.flatMap_cons]
      exact head?_readings_append (PrologItem.head?_readings hitem) (ih hitems)

/-! ## The root -/

/-- A name of an element: an ASCII letter or an underscore, and behind it such characters, digits, dots
and dashes. -/
def IsTagName (name : List Char) : Prop :=
  ∃ c s, name = c :: s ∧ startsName c = true ∧
    ∀ d ∈ s, (d.isAlphanum || d == '_' || d == '.' || d == '-') = true

/-- What may follow the name in a tag. -/
def endsName (c : Char) : Bool := isBlank c || c == '/' || c == '>'

theorem toNat_lt_of_isAlphanum {c : Char} (h : c.isAlphanum = true) : c.toNat < 0x80 := by
  have hranges : (decide ('A'.toNat ≤ c.toNat ∧ c.toNat ≤ 'Z'.toNat) ||
      (decide ('a'.toNat ≤ c.toNat) && decide (c.toNat ≤ 'z'.toNat)) ||
      (decide ('0'.toNat ≤ c.toNat) && decide (c.toNat ≤ '9'.toNat))) = true := h
  have hz : 'Z'.toNat = 90 ∧ 'z'.toNat = 122 ∧ '9'.toNat = 57 := by decide
  simp only [Bool.or_eq_true, Bool.and_eq_true, decide_eq_true_eq] at hranges
  omega

theorem continuesName_of_ascii {c : Char}
    (h : (c.isAlphanum || c == '_' || c == '.' || c == '-') = true) : continuesName c = true := by
  simp only [Bool.or_eq_true, beq_iff_eq] at h
  rcases h with ((h | rfl) | rfl) | rfl
  · simp [continuesName, isWordCharacter, h, toNat_lt_of_isAlphanum h]
  · rfl
  · rfl
  · rfl

/-- The numbers of the blanks. -/
def blankCodes : List Nat :=
  [0x09, 0x0A, 0x0B, 0x0C, 0x0D, 0x20, 0x85, 0xA0, 0x1680, 0x2000, 0x2001, 0x2002, 0x2003, 0x2004, 0x2005,
    0x2006, 0x2007, 0x2008, 0x2009, 0x200A, 0x2028, 0x2029, 0x202F, 0x205F, 0x3000]

theorem toNat_mem_of_isBlank {c : Char} (h : isBlank c = true) : c.toNat ∈ blankCodes := by
  simp only [isBlank, Bool.or_eq_true, Bool.and_eq_true, decide_eq_true_eq, beq_iff_eq] at h
  simp only [blankCodes, List.mem_cons, List.not_mem_nil, or_false]
  omega

theorem continuesName_of_endsName {c : Char} (h : endsName c = true) : continuesName c = false := by
  have hblanks : ∀ n ∈ blankCodes, continuesName (Char.ofNat n) = false := by decide +kernel
  simp only [endsName, Bool.or_eq_true, beq_iff_eq] at h
  rcases h with (h | rfl) | rfl
  · rw [← Char.ofNat_toNat c]
    exact hblanks _ (toNat_mem_of_isBlank h)
  · rfl
  · rfl

theorem found?_root {name : List Char} (hname : IsTagName name) {c : Char} (hc : endsName c = true)
    (rest : List Char) : found? ('<' :: (name ++ c :: rest)) .between = some name := by
  obtain ⟨d, s, rfl, hd, hs⟩ := hname
  have hsign : d ≠ '?' ∧ d ≠ '!' := by
    constructor <;> rintro rfl <;> cases hd
  have hopened : Stage.opened.step d = [.naming [d]] :=
    (if_neg hsign.1).trans ((if_neg hsign.2).trans (if_pos hd))
  have hbetween : Stage.between.step '<' = [.opened] := rfl
  rw [found?_cons, hbetween, List.findSome?_singleton, List.cons_append, found?_cons, hopened,
    List.findSome?_singleton, found?_naming,
    List.takeWhile_append_of_pos fun x hx => continuesName_of_ascii (hs x hx),
    List.takeWhile_cons_of_neg (Bool.eq_false_iff.mp (continuesName_of_endsName hc)), List.append_nil]
  rfl

theorem withoutMark_prolog {items : List PrologItem} (h : ∀ item ∈ items, item.WellFormed)
    (rest : List Char) :
    withoutMark (items.flatMap PrologItem.text ++ '<' :: rest) =
      items.flatMap PrologItem.text ++ '<' :: rest := by
  have hkept {c : Char} (hc : c ≠ '\uFEFF') (s : List Char) : withoutMark (c :: s) = c :: s := by
    rw [withoutMark_cons, beq_eq_false_iff_ne.mpr (Ne.symm hc)]
    rfl
  cases items with
  | nil => exact hkept (by decide) rest
  | cons item items =>
      have hitem := h item List.mem_cons_self
      cases item with
      | blank c =>
          refine hkept ?_ _
          rintro rfl
          exact absurd hitem (by decide)
      | _ => exact hkept (c := '<') (by decide) _

/-- Behind a prolog the name of the root decides. -/
theorem scanHead_behind_prolog {byteOrderMark : List Char}
    (hmark : byteOrderMark = [] ∨ byteOrderMark = ['\uFEFF']) {items : List PrologItem}
    (hitems : ∀ item ∈ items, item.WellFormed) {name : List Char} (hname : IsTagName name) {c : Char}
    (hc : endsName c = true) (rest : List Char) :
    scanHead (byteOrderMark ++ (items.flatMap PrologItem.text ++ '<' :: (name ++ c :: rest))) =
      if String.ofList name ∈ ["extension", "install"] then .manifest else .other := by
  have hhead : withoutMark (byteOrderMark ++
      (items.flatMap PrologItem.text ++ '<' :: (name ++ c :: rest))) =
        items.flatMap PrologItem.text ++ '<' :: (name ++ c :: rest) := by
    rcases hmark with rfl | rfl
    · exact withoutMark_prolog hitems _
    · rfl
  have hfound := found?_of_head? (head?_readings_prolog hitems) (found?_root hname hc rest)
  have hroot : isRootName name = true ↔ String.ofList name ∈ ["extension", "install"] := by
    rw [isRootName, List.contains_iff_mem]
    rfl
  rw [scanHead_eq_verdict, hhead, hfound, verdict]
  exact if_congr hroot rfl rfl

theorem scanHead_behind_prolog_fake_roots :
    (∀ item ∈ [PrologItem.instruction "xml a='<b>'".toList, .blank '\n',
        .comment " <form> -- > <!-- ".toList, .declaration "DOCTYPE <- a".toList], item.WellFormed) ∧
      IsTagName "install".toList ∧ endsName '/' = true ∧
      scanHead "\uFEFF<?xml a='<b>'?>\n<!-- <form> -- > <!-- --><!DOCTYPE <- a><install/><form>".toList =
        .manifest := by
  have hitems : ∀ item ∈ [PrologItem.instruction "xml a='<b>'".toList, .blank '\n',
      .comment " <form> -- > <!-- ".toList, .declaration "DOCTYPE <- a".toList],
      item.WellFormed := by decide
  have hname : IsTagName "install".toList := ⟨'i', "nstall".toList, rfl, rfl, List.all_eq_true.mp rfl⟩
  have hhead := scanHead_behind_prolog (.inr rfl) hitems hname (c := '/') rfl "><form>".toList
  rw [if_pos (by decide)] at hhead
  exact ⟨hitems, hname, rfl, hhead⟩

end ExtensionLint.Discovery
