import ExtensionLint.Proofs.Script.BracePairs
import ExtensionLint.Proofs.Script.Heads
import ExtensionLint.Proofs.Script.Lexing
import ExtensionLint.Proofs.Text.Search

/-!
# The grammar of scripts that only declare

Condensed text passes for a script that only declares exactly if it is an open tag, without another one
behind it, and a word of the language `declarations` (`isDeclarative_iff_mem`). The readers of
`Script.Declarations` take each item as far as it goes, and no other way to cut the text does better.
-/

namespace ExtensionLint.Script

open Text Utf8
open Computability

namespace Grammar

def balanced : Language Char := {s | Balanced s}

/-- A pair of braces with what it encloses. -/
def braced : Language Char := word "\x7b" * balanced * word "\x7d"

def wholeDeclaration : Language Char := head * braced

/-- What may follow the open tag of a script that only declares. -/
def declarations : Language Char :=
  gap * (1 + namespaceStatement) * importStatement∗ *
    ((gap * wholeDeclaration) * (gap * wholeDeclaration)∗) * (gap * (1 + word "?>"))

end Grammar

open Script.Grammar

/-! ## First letters -/

/-- The text begins with one of the signs. -/
def BeginsWith (signs s : List Char) : Prop := ∃ c ∈ signs, ∃ t, s = c :: t

theorem BeginsWith.mono {signs signs' s : List Char} (h : BeginsWith signs s) (hsigns : signs ⊆ signs') :
    BeginsWith signs' s := by
  obtain ⟨c, hc, further⟩ := h
  exact ⟨c, hsigns hc, further⟩

theorem begins_word {w : String} {c : Char} {further signs : List Char} (hw : w.toList = c :: further)
    (hc : c ∈ signs) : Precedes (word w) (fun _ => True) (BeginsWith signs) := by
  rintro _ rfl rest _
  exact ⟨c, hc, further ++ rest, by rw [hw, List.cons_append]⟩

theorem after?_eq_none_of_begins {signs s : List Char} (h : BeginsWith signs s) {w : String} {c : Char}
    {further : List Char} (hw : w.toList = c :: further) (hc : c ∉ signs) : after? w.toList s = none := by
  obtain ⟨x, hx, t, rfl⟩ := h
  rw [hw]
  exact after?_cons_of_ne (ne_of_mem_of_not_mem hx hc).symm further t

theorem ne_nil_of_begins {l : Language Char} {signs a : List Char}
    (h : Precedes l (fun _ => True) (BeginsWith signs)) (ha : a ∈ l) : a ≠ [] := by
  rintro rfl
  obtain ⟨c, _, t, ht⟩ := h [] ha [] trivial
  cases ht

theorem begins_namespace : Precedes namespaceStatement (fun _ => True) (BeginsWith ['n']) :=
  .front (.front (begins_word (w := "namespace ") rfl (by decide)))

theorem begins_import : Precedes importStatement (fun _ => True) (BeginsWith ['u']) :=
  .front (.front (.front (.front (begins_word (w := "use ") rfl (by decide)))))

/-- The first letters of modifiers and of kinds of declarations. -/
def declarationLetters : List Char := ['a', 'f', 'r', 'c', 'i', 't', 'e']

theorem begins_declaration :
    Precedes wholeDeclaration (fun _ => True) (BeginsWith declarationLetters) := by
  have hmodifier : Precedes modifier (fun _ => True) (BeginsWith declarationLetters) :=
    .add (.add (begins_word (w := "abstract ") rfl (by decide)) (begins_word (w := "final ") rfl (by decide)))
      (begins_word (w := "readonly ") rfl (by decide))
  have hkind : Precedes declarationKind (fun _ => True) (BeginsWith declarationLetters) :=
    .add (.add (.add (begins_word (w := "class ") rfl (by decide))
      (begins_word (w := "interface ") rfl (by decide))) (begins_word (w := "trait ") rfl (by decide)))
      (begins_word (w := "enum ") rfl (by decide))
  have hfront := (Precedes.star (fun _ => id) hmodifier).mul hkind
  exact .front (.front (.front (.front (.front (.front hfront)))))

theorem afterSpace_of_begins {signs s : List Char} (h : BeginsWith signs s) (hspace : ' ' ∉ signs) :
    afterSpace s = s := by
  obtain ⟨c, hc, t, rfl⟩ := h
  exact afterSpace_cons_of_ne (ne_of_mem_of_not_mem hc hspace) t

/-! ## Declarations -/

theorem takes_declaration : Takes afterDeclaration? wholeDeclaration := by
  intro s rest h
  obtain ⟨body, hbody, h⟩ := Option.bind_eq_some_iff.mp h
  obtain ⟨place, hplace, h⟩ := Option.bind_eq_some_iff.mp h
  obtain ⟨⟨a, ha, rfl⟩, hbrace⟩ := takes_head hbody
  obtain ⟨t, rfl⟩ := List.head?_eq_some_iff.mp hbrace
  obtain ⟨inner, behind, rfl, hinner, rfl⟩ := closingBrace?_eq_some_iff.mp hplace
  rw [drop_pair] at h
  obtain rfl := Option.some.inj h
  refine ⟨a ++ (['{'] ++ inner ++ ['}']), Language.append_mem_mul ha
    (Language.append_mem_mul (Language.append_mem_mul rfl hinner) rfl), ?_⟩
  simp only [List.append_assoc, List.cons_append, List.nil_append]

theorem finds_declaration : Finds afterDeclaration? wholeDeclaration fun _ => True := by
  rintro _ ⟨a, ha, _, ⟨_, ⟨_, rfl, inner, hinner, rfl⟩, _, rfl, rfl⟩, rfl⟩ rest _
  have hbody : a ++ (['{'] ++ inner ++ ['}']) ++ rest = a ++ '{' :: (inner ++ '}' :: rest) := by
    simp only [List.append_assoc, List.cons_append, List.nil_append]
  have hclose := closingBrace?_eq_some_iff.mpr ⟨inner, rest, rfl, hinner, rfl⟩
  refine (congrArg afterDeclaration? hbody).trans ?_
  refine Option.bind_eq_some_iff.mpr ⟨_, afterHead?_append ha _, ?_⟩
  refine Option.bind_eq_some_iff.mpr ⟨_, hclose, ?_⟩
  exact congrArg some (drop_pair inner rest)

/-- At least one declaration, and a close tag perhaps. -/
abbrev someDeclarations : Language Char :=
  (gap * wholeDeclaration) * (gap * wholeDeclaration)∗ * (gap * (1 + word "?>"))

/-- `k` declarations, and a close tag perhaps. -/
abbrev declarationsThen (k : Nat) : Language Char :=
  (gap * wholeDeclaration) ^ k * (gap * (1 + word "?>"))

theorem mem_of_declaresOnly {n count : Nat} {s : List Char} (hs : Spaced s)
    (h : declaresOnly n count s = true) : ∃ k, s ∈ declarationsThen k ∧ 0 < count + k := by
  induction n generalizing count s with
  | zero => cases h
  | succ n ih =>
      obtain ⟨g, hg, hsg⟩ := skips_space s
      rw [declaresOnly, hs.trimStart_eq] at h
      generalize afterSpace s = t at h hsg
      subst hsg
      split at h
      · rename_i hend
        have hclose : t ∈ (1 + word "?>" : Language Char) := by
          simp only [Bool.or_eq_true, List.isEmpty_iff, beq_iff_eq] at hend
          rcases hend with rfl | rfl
          · exact .inl rfl
          · exact .inr rfl
        refine ⟨0, ?_, of_decide_eq_true h⟩
        rw [declarationsThen, pow_zero, one_mul]
        exact Language.append_mem_mul hg hclose
      · split at h
        · rename_i rest hrest
          obtain ⟨a, ha, rfl⟩ := takes_declaration t rest hrest
          obtain ⟨k, hk, hcount⟩ := ih hs.of_append.of_append h
          refine ⟨k + 1, ?_, by omega⟩
          rw [declarationsThen, pow_succ', mul_assoc, ← List.append_assoc]
          exact Language.append_mem_mul (Language.append_mem_mul hg ha) hk
        · cases h

theorem declaresOnly_of_mem {k : Nat} {s : List Char} (hs : Spaced s) (h : s ∈ declarationsThen k)
    {count : Nat} (hcount : 0 < count + k) {n : Nat} (hn : s.length < n) :
    declaresOnly n count s = true := by
  induction k generalizing s count n with
  | zero =>
      obtain ⟨n, rfl⟩ := Nat.exists_eq_succ_of_ne_zero (Nat.ne_zero_of_lt hn)
      rw [declarationsThen, pow_zero, one_mul] at h
      obtain ⟨g, hg, t, ht, rfl⟩ := h
      have hclose : (t.isEmpty || t == "?>".toList) = true ∧ afterSpace t = t := by
        rcases ht with rfl | rfl <;> exact ⟨rfl, rfl⟩
      have hs : Spaced (g ++ t) := hs
      rw [declaresOnly, hs.trimStart_eq, hs.afterSpace_append hg, hclose.2, if_pos hclose.1]
      exact decide_eq_true hcount
  | succ k ih =>
      obtain ⟨n, rfl⟩ := Nat.exists_eq_succ_of_ne_zero (Nat.ne_zero_of_lt hn)
      rw [declarationsThen, pow_succ', mul_assoc] at h
      obtain ⟨_, ⟨g, hg, a, ha, rfl⟩, rest, hrest, rfl⟩ := h
      dsimp only at hs hn ⊢
      rw [List.append_assoc] at hs hn ⊢
      have hbegins := begins_declaration a ha rest trivial
      have hopen : ¬ ((a ++ rest).isEmpty || a ++ rest == "?>".toList) = true := by
        obtain ⟨c, hc, t, ht⟩ := hbegins
        rw [ht, List.isEmpty_cons, Bool.false_or, beq_iff_eq]
        intro hclose
        obtain rfl : c = '?' := (List.cons.inj hclose).1
        exact absurd hc (by decide)
      rw [declaresOnly, hs.trimStart_eq, hs.afterSpace_append hg,
        afterSpace_of_begins hbegins (by decide), if_neg hopen, finds_declaration a ha rest trivial]
      have hpos := List.length_pos_iff.mpr (ne_nil_of_begins begins_declaration ha)
      rw [List.length_append, List.length_append] at hn
      exact ih hs.of_append.of_append hrest (by omega) (by omega)

theorem mem_plus_iff {l m : Language Char} {s : List Char} :
    s ∈ l * l∗ * m ↔ ∃ k, s ∈ l ^ k * m ∧ 0 < k := by
  constructor
  · rintro ⟨_, ⟨a, ha, b, hb, rfl⟩, c, hc, rfl⟩
    obtain ⟨words, rfl, hwords⟩ := Language.mem_kstar.mp hb
    refine ⟨words.length + 1, Language.append_mem_mul ?_ hc, Nat.succ_pos _⟩
    rw [pow_succ']
    exact Language.append_mem_mul ha (Language.mem_pow.mpr ⟨words, rfl, rfl, hwords⟩)
  · rintro ⟨k, h, hk⟩
    obtain ⟨k, rfl⟩ := Nat.exists_eq_succ_of_ne_zero (Nat.ne_zero_of_lt hk)
    rw [pow_succ'] at h
    have hle : l * l ^ k ≤ l * l∗ := mul_le_mul_right pow_le_kstar l
    exact mul_le_mul_left hle m h

theorem declaresOnly_iff {s : List Char} (hs : Spaced s) {n : Nat} (hn : s.length < n) :
    declaresOnly n 0 s = true ↔ s ∈ someDeclarations := by
  rw [someDeclarations, mem_plus_iff]
  constructor
  · intro h
    obtain ⟨k, hk, hcount⟩ := mem_of_declaresOnly hs h
    exact ⟨k, hk, by omega⟩
  · rintro ⟨k, hk, hcount⟩
    exact declaresOnly_of_mem hs hk (by omega) hn

theorem Spaced.afterSpace {s : List Char} (h : Spaced s) : Spaced (afterSpace s) := by
  obtain ⟨g, _, hs⟩ := skips_space s
  rw [hs] at h
  exact h.of_append

theorem length_afterSpace_le (s : List Char) : (afterSpace s).length ≤ s.length := by
  obtain ⟨g, _, hs⟩ := skips_space s
  have hlength := congrArg List.length hs
  rw [List.length_append] at hlength
  omega

/-- The space in front of the declarations may be taken off. -/
theorem afterSpace_mem_someDeclarations {s : List Char} (hs : Spaced s) (h : s ∈ someDeclarations) :
    afterSpace s ∈ someDeclarations ∧ BeginsWith declarationLetters (afterSpace s) := by
  obtain ⟨_, ⟨_, ⟨g, hg, a, ha, rfl⟩, b, hb, rfl⟩, c, hc, rfl⟩ := h
  have heq : g ++ a ++ b ++ c = g ++ (a ++ (b ++ c)) := by simp only [List.append_assoc]
  have hs : Spaced (g ++ a ++ b ++ c) := hs
  have hbegins := begins_declaration a ha (b ++ c) trivial
  dsimp only
  rw [heq] at hs ⊢
  rw [hs.afterSpace_append hg, afterSpace_of_begins hbegins (by decide)]
  have hmem := Language.append_mem_mul (Language.append_mem_mul
    (Language.append_mem_mul (show [] ∈ gap from .inl rfl) ha) hb) hc
  rw [List.nil_append, List.append_assoc] at hmem
  exact ⟨hmem, hbegins⟩

/-! ## Imports -/

theorem afterImport?_of_begins {s : List Char} (h : BeginsWith declarationLetters s) :
    afterImport? s = none :=
  congrArg (Option.bind · _) (after?_eq_none_of_begins h (w := "use ") rfl (by decide))

theorem afterNamespace?_of_begins {s : List Char} (h : BeginsWith ('u' :: declarationLetters) s) :
    afterNamespace? s = none :=
  congrArg (Option.bind · _) (after?_eq_none_of_begins h (w := "namespace ") rfl (by decide))

/-- The imports are read one by one, each with the space behind it. -/
theorem afterImports_append {statements : List (List Char)} {s : List Char}
    (h : ∀ a ∈ statements, a ∈ importStatement) (hs : Spaced (statements.flatten ++ s))
    (hbegins : BeginsWith declarationLetters (afterSpace s)) {n : Nat}
    (hn : (afterSpace (statements.flatten ++ s)).length ≤ n) :
    afterImports n (afterSpace (statements.flatten ++ s)) = afterSpace s := by
  induction statements generalizing n with
  | nil =>
      cases n with
      | zero => rfl
      | succ n =>
          rw [List.flatten_nil, List.nil_append, afterImports, afterImport?_of_begins hbegins]
  | cons a statements ih =>
      obtain ⟨ha, hstatements⟩ := List.forall_mem_cons.mp h
      rw [List.flatten_cons, List.append_assoc] at hs hn ⊢
      rw [afterSpace_of_begins (begins_import a ha _ trivial) (by decide)] at hn ⊢
      have hpos := List.length_pos_iff.mpr (ne_nil_of_begins begins_import ha)
      have hle := length_afterSpace_le (statements.flatten ++ s)
      rw [List.length_append] at hn
      obtain ⟨n, rfl⟩ := Nat.exists_eq_succ_of_ne_zero (n := n) (by omega)
      rw [afterImports, afterImport?_append ha hs]
      exact ih hstatements hs.of_append (by omega)

theorem afterImport?_afterImports {n : Nat} {s : List Char} (hn : s.length ≤ n) :
    afterImport? (afterImports n s) = none := by
  induction n generalizing s with
  | zero =>
      obtain rfl := List.eq_nil_of_length_eq_zero (Nat.le_zero.mp hn)
      rfl
  | succ n ih =>
      rw [afterImports]
      cases h : afterImport? s with
      | none => exact h
      | some rest =>
          obtain ⟨a, ha, rfl⟩ := takes_import s rest h
          have hpos := List.length_pos_iff.mpr (ne_nil_of_begins begins_import ha)
          rw [List.length_append] at hn
          exact ih (by omega)

/-! ## Scripts -/

theorem mem_declarations_iff {s : List Char} : s ∈ declarations ↔
    ∃ g ∈ gap, ∃ a ∈ (1 + namespaceStatement : Language Char), ∃ b ∈ importStatement∗,
      ∃ c ∈ someDeclarations, s = g ++ (a ++ (b ++ c)) := by
  have hassoc : declarations = gap * ((1 + namespaceStatement) * (importStatement∗ * someDeclarations)) := by
    simp only [declarations, someDeclarations, mul_assoc]
  rw [hassoc]
  constructor
  · rintro ⟨g, hg, _, ⟨a, ha, _, ⟨b, hb, c, hc, rfl⟩, rfl⟩, rfl⟩
    exact ⟨g, hg, a, ha, b, hb, c, hc, rfl⟩
  · rintro ⟨g, hg, a, ha, b, hb, c, hc, rfl⟩
    exact Language.append_mem_mul hg (Language.append_mem_mul ha (Language.append_mem_mul hb hc))

/-- What is left to read behind the namespace and the imports. -/
def behindImports (rest : List Char) : List Char :=
  let s := afterOptional afterNamespace? (trimStart rest)
  afterImports s.length s

theorem isDeclarative_eq_true_iff {condensed : List Char} :
    isDeclarative condensed = true ↔
      ∃ rest, condensed = "<?php".toList ++ rest ∧ ¬ "<?".toList <:+: rest ∧
        declaresOnly ((behindImports rest).length + 1) 0 (behindImports rest) = true := by
  constructor
  · intro h
    rw [isDeclarative] at h
    split at h
    · cases h
    · rename_i rest hopen
      obtain ⟨_, rfl, rfl⟩ := takes_word "<?php" condensed rest hopen
      split at h
      · cases h
      · rename_i hopened
        rw [occurs_eq_true_iff] at hopened
        exact ⟨rest, rfl, hopened, h⟩
  · rintro ⟨rest, rfl, hopened, h⟩
    rw [← occurs_eq_true_iff] at hopened
    rw [isDeclarative, finds_word "<?php" _ rfl rest trivial]
    dsimp only
    rw [if_neg hopened]
    exact h

theorem behindImports_append {g a b c : List Char} (hg : g ∈ gap)
    (ha : a ∈ (1 + namespaceStatement : Language Char)) (hb : b ∈ importStatement∗)
    (hc : c ∈ someDeclarations) (hs : Spaced (g ++ (a ++ (b ++ c)))) :
    behindImports (g ++ (a ++ (b ++ c))) = afterSpace c := by
  have hbehind : Spaced (b ++ c) := hs.of_append.of_append
  have hbegins := (afterSpace_mem_someDeclarations hbehind.of_append hc).2
  have hitems : BeginsWith ('u' :: declarationLetters) (afterSpace (b ++ c)) := by
    have hstar : Precedes importStatement∗
        (fun s => BeginsWith ('u' :: declarationLetters) (afterSpace s))
        (fun s => BeginsWith ('u' :: declarationLetters) (afterSpace s)) := by
      refine .star (fun _ => id) fun w hw rest _ => ?_
      have hword := begins_import w hw rest trivial
      rw [afterSpace_of_begins hword (by decide)]
      exact hword.mono (by decide)
    exact hstar b hb c (hbegins.mono (List.subset_cons_self _ _))
  -- with a namespace, the space behind it goes with it; without one, it went with the tag
  have hnamespace : afterOptional afterNamespace? (afterSpace (a ++ (b ++ c))) = afterSpace (b ++ c) := by
    rcases ha with rfl | ha
    · rw [List.nil_append, afterOptional, afterNamespace?_of_begins hitems]
      rfl
    · rw [afterSpace_of_begins (begins_namespace a ha _ trivial) (by decide), afterOptional,
        afterNamespace?_append ha hs.of_append]
      rfl
  obtain ⟨statements, rfl, hstatements⟩ := Language.mem_kstar.mp hb
  rw [behindImports, hs.trimStart_eq, hs.afterSpace_append hg, hnamespace]
  exact afterImports_append hstatements hbehind hbegins (Nat.le_refl _)

theorem mem_declarations_iff_declaresOnly {rest : List Char} (hs : Spaced rest) :
    declaresOnly ((behindImports rest).length + 1) 0 (behindImports rest) = true ↔
      rest ∈ declarations := by
  rw [mem_declarations_iff]
  constructor
  · intro h
    obtain ⟨g, hg, hspace⟩ := skips_space rest
    obtain ⟨a, ha, hnamespace⟩ := takes_namespace.optional (trimStart rest)
    obtain ⟨b, hb, hbehind⟩ := skips_imports _ (afterOptional afterNamespace? (trimStart rest))
    have heq : rest = g ++ (a ++ (b ++ behindImports rest)) := by
      rw [behindImports, ← hbehind, ← hnamespace, hs.trimStart_eq, ← hspace]
    rw [heq] at hs
    have hc := (declaresOnly_iff hs.of_append.of_append.of_append (Nat.lt_succ_self _)).mp h
    exact ⟨g, hg, a, ha, b, hb, _, hc, heq⟩
  · rintro ⟨g, hg, a, ha, b, hb, c, hc, rfl⟩
    rw [behindImports_append hg ha hb hc hs]
    have hbehind := hs.of_append.of_append.of_append
    exact (declaresOnly_iff hbehind.afterSpace (Nat.lt_succ_self _)).mpr
      (afterSpace_mem_someDeclarations hbehind hc).1

/-! ## Places and steps -/

/-- The reader leaves a later part of the text. -/
def Advances (reader : List Char → Option (List Char)) : Prop :=
  ∀ s rest, reader s = some rest → ∃ a, a ≠ [] ∧ s = a ++ rest

theorem Takes.advances {reader : List Char → Option (List Char)} {l : Language Char} {signs : List Char}
    (h : Takes reader l) (hl : Precedes l (fun _ => True) (BeginsWith signs)) : Advances reader := by
  intro s rest hs
  obtain ⟨a, ha, heq⟩ := h s rest hs
  exact ⟨a, ne_nil_of_begins hl ha, heq⟩

/-- Each declaration is a part of the text, so as many steps as the text has characters are enough. -/
theorem declaresOnly_congr {n m : Nat} (count : Nat) {s : List Char} (hn : s.length < n)
    (hm : s.length < m) : declaresOnly n count s = declaresOnly m count s := by
  induction n generalizing m count s with
  | zero => omega
  | succ n ih =>
      obtain ⟨m, rfl⟩ := Nat.exists_eq_succ_of_ne_zero (Nat.ne_zero_of_lt hm)
      rw [declaresOnly, declaresOnly]
      split
      · rfl
      · cases h : afterDeclaration? (trimStart s) with
        | none => rfl
        | some rest =>
            obtain ⟨a, hne, heq⟩ := takes_declaration.advances begins_declaration _ rest h
            obtain ⟨front, _, hs⟩ := skips_blanks s
            have hpos := List.length_pos_iff.mpr hne
            have hlength := congrArg List.length hs
            rw [heq, List.length_append, List.length_append] at hlength
            exact ih (count + 1) (by omega) (by omega)

/-- A reader of the bytes of a body cuts it behind the brace that closes it, and so at a whole
character. -/
theorem closingBrace?_letters_body {s body : List Char} (h : afterHead? s = some body) (place : Nat) :
    closingBrace? (letters body) = some place ↔
      ∃ inner rest, body = '{' :: (inner ++ '}' :: rest) ∧ place = (encode ('{' :: inner)).length ∧
        afterDeclaration? s = some rest := by
  obtain ⟨t, rfl⟩ := List.head?_eq_some_iff.mp (takes_head h).2
  have hdeclaration : afterDeclaration? s =
      (closingBrace? ('{' :: t)).bind fun close => some (('{' :: t).drop (close + 1)) := by
    rw [afterDeclaration?, h]
    rfl
  rw [closingBrace?_letters, Option.map_eq_some_iff, hdeclaration]
  constructor
  · rintro ⟨close, hclose, rfl⟩
    rw [hclose]
    obtain ⟨inner, rest, rfl, _, rfl⟩ := closingBrace?_eq_some_iff.mp hclose
    refine ⟨inner, rest, rfl, ?_, congrArg some (drop_pair inner rest)⟩
    rw [List.take_succ_cons, List.take_left]
  · rintro ⟨inner, rest, heq, rfl, hrest⟩
    obtain ⟨close, hclose, hrest⟩ := Option.bind_eq_some_iff.mp hrest
    obtain rfl := (List.cons.inj heq).2
    refine ⟨close, hclose, ?_⟩
    obtain ⟨inner', rest', heq', _, rfl⟩ := closingBrace?_eq_some_iff.mp hclose
    rw [heq', drop_pair] at hrest
    obtain rfl := Option.some.inj hrest
    obtain rfl := List.append_cancel_right heq'
    rw [List.take_succ_cons, List.take_left]

/-- Condensed text passes for a script that only declares exactly if it is an open tag, with no other one
behind it, and at most one namespace, imports, declarations and perhaps a close tag, in this order.
Each item that is read ends at a whole character inside the text, the body of a declaration too where its
bytes are read, and the readers stop where no item follows, not for want of steps. -/
theorem isDeclarative_iff_mem {source condensed : List Char} (h : condense source = .ok condensed) :
    (isDeclarative condensed = true ↔
      ∃ rest, condensed = "<?php".toList ++ rest ∧ ¬ "<?".toList <:+: rest ∧ rest ∈ declarations) ∧
    (Advances afterNamespace? ∧ Advances afterImport? ∧ Advances afterDeclaration?) ∧
    (∀ s body, afterHead? s = some body → ∀ place, closingBrace? (letters body) = some place ↔
      ∃ inner rest, body = '{' :: (inner ++ '}' :: rest) ∧ place = (encode ('{' :: inner)).length ∧
        afterDeclaration? s = some rest) ∧
    (∀ n s, s.length ≤ n → afterImport? (afterImports n s) = none) ∧
    ∀ n m count s, s.length < n → s.length < m → declaresOnly n count s = declaresOnly m count s := by
  have hspaced := spaced_of_condense h
  refine ⟨?_, ⟨takes_namespace.advances begins_namespace, takes_import.advances begins_import,
    takes_declaration.advances begins_declaration⟩, fun s body => closingBrace?_letters_body,
    fun n s => afterImport?_afterImports, fun n m count s => declaresOnly_congr count⟩
  rw [isDeclarative_eq_true_iff]
  refine exists_congr fun rest => and_congr_right ?_
  rintro rfl
  exact and_congr_right fun _ => mem_declarations_iff_declaresOnly hspaced.of_append

/-- A brace in a comment and one in a literal close nothing. -/
theorem isDeclarative_iff_mem_class :
    let source := "<?php\nuse A\\B as C;\nfinal class D extends C \x7b\n// \x7d\nconst E = '\x7d';\n\x7d\n".toList
    let condensed := "<?php use A\\B as C; final class D extends C \x7b const E = '\x7d'; \x7d".toList
    condense source = .ok condensed ∧ isDeclarative condensed = true ∧
      ∃ rest, condensed = "<?php".toList ++ rest ∧ ¬ "<?".toList <:+: rest ∧ rest ∈ declarations := by
  intro source condensed
  have hsequence : Sequence .markup (.openTag (mark "<?php") ::
      ((mark "\nuse A\\B as C;\nfinal class D extends C \x7b\n").map Piece.plain ++
      (.lineComment (mark "//") (mark " \x7d") :: ((mark "\nconst E = ").map Piece.plain ++
      (.literal (byte '\'') ((mark "\x7d").map .plain) :: ((mark ";\n\x7d\n").map Piece.plain ++ [])))))) :=
    .cons rfl (.inl rfl) trivial <|
    sequence_plain _ (List.all_iff_forall_prop.mp (by decide)) <|
    .cons rfl ⟨.inl rfl, List.all_iff_forall_prop.mp (by decide), by decide⟩ rfl <|
    sequence_plain _ (List.all_iff_forall_prop.mp (by decide)) <| .cons rfl ⟨rfl, by decide⟩ trivial <|
    sequence_plain _ (List.all_iff_forall_prop.mp (by decide)) (.nil _)
  have hclean : clean .commentsOnly source =
      .ok "<?php\nuse A\\B as C;\nfinal class D extends C \x7b\n    \nconst E = '\x7d';\n\x7d\n".toList :=
    clean_eq_ok_iff.mpr ⟨_, scan_sequence hsequence .commentsOnly, decodeLossy_encode
      "<?php\nuse A\\B as C;\nfinal class D extends C \x7b\n    \nconst E = '\x7d';\n\x7d\n".toList⟩
  have hcondense : condense source = .ok condensed := by
    rw [condense, hclean]
    exact congrArg Except.ok (by decide)
  have hdeclarative : isDeclarative condensed = true := by decide
  exact ⟨hcondense, hdeclarative, (isDeclarative_iff_mem hcondense).1.mp hdeclarative⟩

end ExtensionLint.Script
