import Mathlib.Computability.Language
import ExtensionLint.Proofs.Script.Braces

/-!
# The language of declarations

A script that only declares is, outside its braces, a word of the language `script`
(`outside_mem_script`). Each reader of `Script.Declarations` takes a word of one language off the front
of a text (`Takes`), and the readers combine as the languages do.
-/

namespace ExtensionLint.Script

open Text
open Computability

namespace Grammar

/-! ## Languages -/

def word (w : String) : Language Char := {w.toList}

/-- One or more characters of a class. -/
def run (member : Char → Bool) : Language Char := {s | s ≠ [] ∧ ∀ c ∈ s, member c = true}

/-- At most one space. -/
def gap : Language Char := 1 + word " "

/-- White space of any size. -/
def blanks : Language Char := {s | ∀ c ∈ s, isBlank c = true}

def name : Language Char := run isNameChar

def path : Language Char := run isPathChar

def semicolon : Language Char := gap * word ";" * gap

def namespaceStatement : Language Char := word "namespace " * path * semicolon

def importStatement : Language Char :=
  word "use " * (1 + (word "function " + word "const ")) * path * (1 + word " as " * name) * semicolon

def modifier : Language Char := word "abstract " + word "final " + word "readonly "

def declarationKind : Language Char :=
  word "class " + word "interface " + word "trait " + word "enum "

def backingType : Language Char := gap * word ":" * gap * path

def nameList : Language Char := path * (gap * word "," * gap * path)∗

/-- What stands before the braces of a declaration. -/
def head : Language Char :=
  modifier∗ * declarationKind * name * (1 + backingType) * (1 + word " extends " * nameList) *
    (1 + word " implements " * nameList) * gap

/-- A declaration without what its braces enclose. -/
def declaration : Language Char := head * word "{}"

/-- A script that only declares, without what the braces of its declarations enclose. -/
def script : Language Char :=
  word "<?php" * blanks * (1 + namespaceStatement) * importStatement∗ *
    ((blanks * declaration) * (blanks * declaration)∗) * (blanks * (1 + word "?>"))

end Grammar

open Script.Grammar

/-! ## Readers -/

/-- What the reader takes off the front of a text is a word of the language. -/
def Takes (reader : List Char → Option (List Char)) (l : Language Char) : Prop :=
  ∀ s rest, reader s = some rest → ∃ a ∈ l, s = a ++ rest

/-- A reader that does not fail. -/
def Skips (reader : List Char → List Char) (l : Language Char) : Prop :=
  ∀ s, ∃ a ∈ l, s = a ++ reader s

namespace Takes

variable {f g : List Char → Option (List Char)} {h : List Char → List Char} {l m : Language Char}

theorem bind (hf : Takes f l) (hg : Takes g m) : Takes (fun s => (f s).bind g) (l * m) := by
  intro s rest hs
  obtain ⟨t, hft, hgt⟩ := Option.bind_eq_some_iff.mp hs
  obtain ⟨a, ha, rfl⟩ := hf s t hft
  obtain ⟨b, hb, rfl⟩ := hg t rest hgt
  exact ⟨a ++ b, Language.append_mem_mul ha hb, (List.append_assoc a b rest).symm⟩

theorem map (hf : Takes f l) (hh : Skips h m) : Takes (fun s => (f s).map h) (l * m) := by
  intro s rest hs
  obtain ⟨t, hft, rfl⟩ := Option.map_eq_some_iff.mp hs
  obtain ⟨a, ha, rfl⟩ := hf s t hft
  obtain ⟨b, hb, hbt⟩ := hh t
  exact ⟨a ++ b, Language.append_mem_mul ha hb, by rw [List.append_assoc, ← hbt]⟩

theorem or (hf : Takes f l) (hg : Takes g m) : Takes (fun s => (f s).or (g s)) (l + m) := by
  intro s rest hs
  rcases Option.or_eq_some_iff.mp hs with hs | ⟨_, hs⟩
  · obtain ⟨a, ha, has⟩ := hf s rest hs
    exact ⟨a, .inl ha, has⟩
  · obtain ⟨a, ha, has⟩ := hg s rest hs
    exact ⟨a, .inr ha, has⟩

theorem mono (hf : Takes f l) (hle : ∀ w ∈ l, w ∈ m) : Takes f m := by
  intro s rest hs
  obtain ⟨a, ha, has⟩ := hf s rest hs
  exact ⟨a, hle a ha, has⟩

theorem optional (hf : Takes f l) : Skips (afterOptional f) (1 + l) := by
  intro s
  cases hs : f s with
  | none => exact ⟨[], .inl rfl, by rw [afterOptional, hs]; rfl⟩
  | some rest =>
      obtain ⟨a, ha, has⟩ := hf s rest hs
      exact ⟨a, .inr ha, by rw [afterOptional, hs]; exact has⟩

/-- A reader that takes words as long as it can, up to a number of times. -/
theorem star {loop : Nat → List Char → List Char} (hf : Takes f l) (hzero : ∀ s, loop 0 s = s)
    (hsucc : ∀ n s, loop (n + 1) s = match f s with | some rest => loop n rest | none => s) (n : Nat) :
    Skips (loop n) l∗ := by
  induction n with
  | zero => exact fun s => ⟨[], Language.nil_mem_kstar l, by rw [hzero]; rfl⟩
  | succ n ih =>
      intro s
      rw [hsucc]
      cases hs : f s with
      | none => exact ⟨[], Language.nil_mem_kstar l, rfl⟩
      | some rest =>
          obtain ⟨a, ha, rfl⟩ := hf s rest hs
          obtain ⟨b, hb, hrest⟩ := ih rest
          refine ⟨a ++ b, ?_, by rw [List.append_assoc, ← hrest]⟩
          have hstar : l * l∗ ≤ l∗ := mul_kstar_le_kstar
          exact hstar (Language.append_mem_mul ha hb)

end Takes

namespace Skips

variable {h k : List Char → List Char} {l m : Language Char}

theorem takes (hh : Skips h l) : Takes (fun s => some (h s)) l := by
  intro s rest hs
  cases hs
  exact hh s

theorem comp {f : List Char → Option (List Char)} (hh : Skips h l) (hf : Takes f m) :
    Takes (fun s => f (h s)) (l * m) := by
  intro s rest hs
  obtain ⟨a, ha, has⟩ := hh s
  obtain ⟨b, hb, hbs⟩ := hf (h s) rest hs
  exact ⟨a ++ b, Language.append_mem_mul ha hb, by rw [List.append_assoc, ← hbs, ← has]⟩

theorem trans (hh : Skips h l) (hk : Skips k m) : Skips (fun s => k (h s)) (l * m) := by
  intro s
  obtain ⟨a, ha, has⟩ := hh s
  obtain ⟨b, hb, hbs⟩ := hk (h s)
  exact ⟨a ++ b, Language.append_mem_mul ha hb, by rw [List.append_assoc, ← hbs, ← has]⟩

end Skips

theorem takes_word (w : String) : Takes (after? w.toList) (word w) := by
  intro s rest hs
  exact ⟨_, rfl, (List.isPrefixOf?_eq_some_iff_append_eq.mp hs).symm⟩

theorem takes_run (member : Char → Bool) : Takes (afterSome? member) (run member) := by
  intro s rest hs
  cases s with
  | nil => cases hs
  | cons c t =>
      obtain ⟨hc, ht⟩ := Option.ite_none_right_eq_some.mp hs
      cases ht
      refine ⟨c :: t.takeWhile member, ⟨List.cons_ne_nil _ _, ?_⟩, ?_⟩
      · exact List.forall_mem_cons.mpr ⟨hc, List.all_eq_true.mp List.all_takeWhile⟩
      · rw [List.cons_append, List.takeWhile_append_dropWhile]

theorem skips_space : Skips afterSpace gap := (takes_word " ").optional

theorem takes_mark {c : Char} {w : String} (hw : w.toList = [c]) :
    Takes (afterMark? c) (gap * word w) := by
  have hword := takes_word w
  rw [hw] at hword
  have hcomp := skips_space.comp hword
  exact hcomp

theorem takes_semicolon : Takes afterSemicolon? semicolon :=
  (takes_mark rfl).map skips_space

theorem takes_namespace : Takes afterNamespace? namespaceStatement := by
  have h := (takes_word "namespace ").bind ((takes_run isPathChar).bind takes_semicolon)
  rw [← mul_assoc] at h
  exact h

theorem takes_imported : Takes afterImported? (path * (1 + word " as " * name) * semicolon) := by
  have halias := ((takes_word " as ").bind (takes_run isNameChar)).optional
  have h := (takes_run isPathChar).bind (halias.comp takes_semicolon)
  rw [← mul_assoc] at h
  exact h

theorem takes_import : Takes afterImport? importStatement := by
  have hkind := ((takes_word "function ").or (takes_word "const ")).bind takes_imported
  have h := (takes_word "use ").bind (hkind.or takes_imported)
  rw [add_comm, ← one_add_mul] at h
  simp only [importStatement, mul_assoc] at h ⊢
  exact h

theorem skips_imports (n : Nat) : Skips (afterImports n) importStatement∗ :=
  takes_import.star (fun _ => rfl) (fun _ _ => rfl) n

theorem takes_oneOf (ws : List (List Char)) : Takes (afterOneOf? ws) {w | w ∈ ws} := by
  intro s rest hs
  obtain ⟨w, hw, hrest⟩ := List.exists_of_findSome?_eq_some hs
  exact ⟨w, hw, (List.isPrefixOf?_eq_some_iff_append_eq.mp hrest).symm⟩

theorem skips_modifiers (n : Nat) : Skips (afterModifiers n) modifier∗ := by
  have hmodifier : Takes (afterOneOf? modifiers) modifier := by
    refine (takes_oneOf modifiers).mono fun w hw => ?_
    rcases List.mem_cons.mp hw with rfl | hw
    · exact .inl (.inl rfl)
    rcases List.mem_cons.mp hw with rfl | hw
    · exact .inl (.inr rfl)
    · exact .inr (List.mem_singleton.mp hw)
  exact hmodifier.star (fun _ => rfl) (fun _ _ => rfl) n

theorem takes_declarationKind : Takes (afterOneOf? declarationKinds) declarationKind := by
  refine (takes_oneOf declarationKinds).mono fun w hw => ?_
  rcases List.mem_cons.mp hw with rfl | hw
  · exact .inl (.inl (.inl rfl))
  rcases List.mem_cons.mp hw with rfl | hw
  · exact .inl (.inl (.inr rfl))
  rcases List.mem_cons.mp hw with rfl | hw
  · exact .inl (.inr rfl)
  · exact .inr (List.mem_singleton.mp hw)

theorem takes_furtherName : Takes afterFurtherName? (gap * word "," * gap * path) := by
  have h := (takes_mark (w := ",") rfl).bind (skips_space.comp (takes_run isPathChar))
  rw [← mul_assoc] at h
  exact h

theorem takes_nameList (w : String) : Takes (afterNameList? w.toList) (word w * nameList) := by
  have hfurther : Skips (fun s => afterFurtherNames s.length s) (gap * word "," * gap * path)∗ :=
    fun s => takes_furtherName.star (fun _ => rfl) (fun _ _ => rfl) s.length s
  have h := (takes_word w).bind ((takes_run isPathChar).bind hfurther.takes)
  exact h

theorem takes_backingType : Takes afterBackingType? backingType := by
  have h := (takes_mark (w := ":") rfl).bind (skips_space.comp (takes_run isPathChar))
  rw [← mul_assoc] at h
  exact h

theorem takes_head {s body : List Char} (h : afterHead? s = some body) :
    (∃ a ∈ head, s = a ++ body) ∧ body.head? = some '{' := by
  have hmodifiers : Skips (fun s => afterModifiers s.length s) modifier∗ :=
    fun s => skips_modifiers s.length s
  have hbases := (takes_nameList " extends ").optional.trans (takes_nameList " implements ").optional
  have hrest := (takes_backingType.optional.trans hbases).trans skips_space
  have htakes := (hmodifiers.comp takes_declarationKind).bind ((takes_run isNameChar).bind hrest.takes)
  obtain ⟨t, ht, h⟩ := Option.bind_eq_some_iff.mp h
  obtain ⟨u, hu, h⟩ := Option.bind_eq_some_iff.mp h
  obtain ⟨hbrace, h⟩ := Option.ite_none_right_eq_some.mp h
  cases h
  refine ⟨?_, hbrace⟩
  obtain ⟨a, ha, has⟩ := htakes s _
    (Option.bind_eq_some_iff.mpr ⟨t, ht, Option.bind_eq_some_iff.mpr ⟨u, hu, rfl⟩⟩)
  simp only [head, ← mul_assoc] at ha ⊢
  exact ⟨a, ha, has⟩

theorem skips_blanks : Skips trimStart blanks := by
  intro s
  exact ⟨s.takeWhile isBlank, List.all_eq_true.mp List.all_takeWhile,
    List.takeWhile_append_dropWhile.symm⟩

/-! ## Alphabets -/

/-- All words of the language are over the alphabet. -/
def Over (alphabet : Char → Bool) (l : Language Char) : Prop := ∀ a ∈ l, ∀ c ∈ a, alphabet c = true

namespace Over

variable {alphabet : Char → Bool} {l m : Language Char}

theorem mul (hl : Over alphabet l) (hm : Over alphabet m) : Over alphabet (l * m) := by
  rintro _ ⟨a, ha, b, hb, rfl⟩ c hc
  rcases List.mem_append.mp hc with hc | hc
  · exact hl a ha c hc
  · exact hm b hb c hc

theorem add (hl : Over alphabet l) (hm : Over alphabet m) : Over alphabet (l + m) := by
  rintro a (ha | ha)
  · exact hl a ha
  · exact hm a ha

theorem one : Over alphabet 1 := by
  intro a ha c hc
  cases (Language.mem_one a).mp ha
  cases hc

theorem star (hl : Over alphabet l) : Over alphabet l∗ := by
  intro a ha c hc
  obtain ⟨words, rfl, hwords⟩ := Language.mem_kstar.mp ha
  obtain ⟨w, hw, hc⟩ := List.mem_flatten.mp hc
  exact hl w (hwords w hw) c hc

theorem word {w : String} (h : w.toList.all alphabet = true) : Over alphabet (word w) := by
  rintro _ rfl
  exact List.all_eq_true.mp h

theorem run {member : Char → Bool} (h : ∀ c, member c = true → alphabet c = true) :
    Over alphabet (run member) :=
  fun _ ha c hc => h c (ha.2 c hc)

end Over

/-- The characters of statements and of the heads of declarations. -/
def isWritten (c : Char) : Bool := isPathChar c || [' ', ';', ',', ':'].contains c

theorem isWritten_of_isPathChar {c : Char} (h : isPathChar c = true) : isWritten c = true := by
  rw [isWritten, h, Bool.true_or]

theorem isWritten_of_isNameChar {c : Char} (h : isNameChar c = true) : isWritten c = true := by
  refine isWritten_of_isPathChar ?_
  rw [isPathChar, h, Bool.true_or]

theorem over_name : Over isWritten name := .run fun _ => isWritten_of_isNameChar

theorem over_path : Over isWritten path := .run fun _ => isWritten_of_isPathChar

theorem over_gap : Over isWritten gap := .add .one (.word rfl)

theorem over_semicolon : Over isWritten semicolon := .mul (.mul over_gap (.word rfl)) over_gap

theorem over_namespaceStatement : Over isWritten namespaceStatement :=
  .mul (.mul (.word rfl) over_path) over_semicolon

theorem over_importStatement : Over isWritten importStatement := by
  have hkind : Over isWritten (1 + (word "function " + word "const ")) :=
    .add .one (.add (.word rfl) (.word rfl))
  have halias : Over isWritten (1 + word " as " * name) := .add .one (.mul (.word rfl) over_name)
  exact .mul (.mul (.mul (.mul (.word rfl) hkind) over_path) halias) over_semicolon

theorem over_nameList : Over isWritten nameList :=
  .mul over_path (.star (.mul (.mul (.mul over_gap (.word rfl)) over_gap) over_path))

theorem over_head : Over isWritten head := by
  have hmodifier : Over isWritten modifier := .add (.add (.word rfl) (.word rfl)) (.word rfl)
  have hkind : Over isWritten declarationKind :=
    .add (.add (.add (.word rfl) (.word rfl)) (.word rfl)) (.word rfl)
  have hbacking : Over isWritten backingType :=
    .mul (.mul (.mul over_gap (.word rfl)) over_gap) over_path
  have hbases (w : String) (hw : w.toList.all isWritten = true) :
      Over isWritten (1 + word w * nameList) :=
    .add .one (.mul (.word hw) over_nameList)
  have hfront := Over.mul (Over.mul (Over.mul hmodifier.star hkind) over_name) (.add .one hbacking)
  exact .mul (.mul (.mul hfront (hbases " extends " rfl)) (hbases " implements " rfl)) over_gap

theorem Over.mono {alphabet wider : Char → Bool} {l : Language Char}
    (h : ∀ c, alphabet c = true → wider c = true) (hl : Over alphabet l) : Over wider l :=
  fun a ha c hc => h c (hl a ha c hc)

/-- The characters of a script that only declares, outside its braces. -/
def isScriptChar (c : Char) : Bool := isWritten c || isBlank c || "<?>{}".toList.contains c

theorem over_script : Over isScriptChar script := by
  have hwritten {l : Language Char} (hl : Over isWritten l) : Over isScriptChar l :=
    hl.mono fun c hc => by rw [isScriptChar, hc, Bool.true_or, Bool.true_or]
  have hblanks : Over isScriptChar blanks :=
    fun a ha c hc => by rw [isScriptChar, ha c hc, Bool.or_true, Bool.true_or]
  have hdeclaration : Over isScriptChar (blanks * declaration) :=
    .mul hblanks (.mul (hwritten over_head) (.word rfl))
  have hfront : Over isScriptChar
      (word "<?php" * blanks * (1 + namespaceStatement) * importStatement∗) :=
    .mul (.mul (.mul (.word rfl) hblanks) (.add .one (hwritten over_namespaceStatement)))
      (hwritten over_importStatement).star
  exact .mul (.mul hfront (.mul hdeclaration hdeclaration.star)) (.mul hblanks (.add .one (.word rfl)))

/-! ## Outside the braces -/

theorem outside_written {a : List Char} (h : ∀ c ∈ a, isWritten c = true) (s : List Char) :
    outside .start (a ++ s) = a ++ outside .start s := by
  refine outsideBy_bare (fun c hc hsign => ?_) s
  have hall : ∀ x ∈ braceSigns, isWritten x = false := List.all_iff_forall_prop.mp (by decide)
  have hfalse := hall c hsign
  rw [h c hc] at hfalse
  cases hfalse

theorem outside_blanks {a : List Char} (h : a ∈ blanks) (s : List Char) :
    outside .start (a ++ s) = a ++ outside .start s :=
  outsideBy_bare (fun c hc => (not_mem_braceSigns_of_isBlank (h c hc)).1) s

theorem outside_afterDeclaration {s rest : List Char} (h : afterDeclaration? s = some rest) :
    ∃ a ∈ declaration, outside .start s = a ++ outside .start rest := by
  obtain ⟨body, hbody, h⟩ := Option.bind_eq_some_iff.mp h
  obtain ⟨close, hclose, h⟩ := Option.bind_eq_some_iff.mp h
  cases h
  obtain ⟨⟨a, ha, rfl⟩, hbrace⟩ := takes_head hbody
  obtain ⟨t, rfl⟩ : ∃ t, body = '{' :: t := by
    cases body with
    | nil => cases hbrace
    | cons c t => exact ⟨t, by rw [Option.some.inj hbrace]⟩
  have hinside : closingBraceFrom (Spot.delimiter .bare) 1 t 1 = some close := hclose
  obtain ⟨inner, rest, rfl, rfl, houtside⟩ :=
    returnsAt_of_closingBraceFrom hinside Nat.one_ne_zero rfl nofun
  refine ⟨a ++ ['{', '}'], Language.append_mem_mul ha rfl, ?_⟩
  have hopen : outside .start ('{' :: (inner ++ '}' :: rest)) =
      '{' :: outside ⟨.bare, 1⟩ (inner ++ '}' :: rest) := rfl
  have hrest : ('{' :: (inner ++ '}' :: rest)).drop (1 + inner.length + 1) = rest := by
    rw [Nat.add_comm 1, List.drop_succ_cons, List.drop_append]
    simp
  rw [outside_written (over_head a ha), hopen, houtside, hrest, List.append_assoc]
  rfl

/-- A text with declarations left to read, and a close tag perhaps. -/
theorem outside_of_declaresOnly {n count : Nat} {s : List Char} (h : declaresOnly n count s = true) :
    outside .start s ∈ (blanks * declaration)∗ * (blanks * (1 + word "?>")) ∧
      (count = 0 → outside .start s ∈
        (blanks * declaration) * (blanks * declaration)∗ * (blanks * (1 + word "?>"))) := by
  induction n generalizing count s with
  | zero => cases h
  | succ n ih =>
      obtain ⟨space, hspace, hs⟩ := skips_blanks s
      rw [declaresOnly] at h
      rw [hs, outside_blanks hspace]
      generalize trimStart s = t at h
      split at h
      · rename_i hend
        have hcount : 0 < count := of_decide_eq_true h
        have hclose : outside .start t ∈ (1 + word "?>" : Language Char) := by
          simp only [Bool.or_eq_true, List.isEmpty_iff, beq_iff_eq] at hend
          rcases hend with rfl | rfl
          · exact .inl rfl
          · exact .inr rfl
        have hmem := Language.append_mem_mul (Language.nil_mem_kstar (blanks * declaration))
          (Language.append_mem_mul hspace hclose)
        exact ⟨hmem, fun hzero => absurd hcount (by omega)⟩
      · split at h
        · rename_i rest hrest
          obtain ⟨a, ha, houtside⟩ := outside_afterDeclaration hrest
          have hmem := Language.append_mem_mul (Language.append_mem_mul hspace ha) (ih h).1
          rw [houtside, ← List.append_assoc]
          rw [← mul_assoc] at hmem
          have hstar : blanks * declaration * (blanks * declaration)∗ ≤ (blanks * declaration)∗ :=
            mul_kstar_le_kstar
          exact ⟨mul_le_mul_left hstar _ hmem, fun _ => hmem⟩
        · cases h

/-- What a script that only declares has outside its braces is the text of such a script. -/
theorem outside_mem_script {condensed : List Char} (h : isDeclarative condensed = true) :
    outside .start condensed ∈ script := by
  rw [isDeclarative] at h
  split at h
  · cases h
  · rename_i rest hopen
    obtain ⟨_, rfl, rfl⟩ := takes_word "<?php" condensed rest hopen
    split at h
    · cases h
    · obtain ⟨space, hspace, hrest⟩ := skips_blanks rest
      obtain ⟨namespaces, hnamespaces, hnamespace⟩ := takes_namespace.optional (trimStart rest)
      dsimp only at h
      generalize afterOptional afterNamespace? (trimStart rest) = s at h hnamespace
      obtain ⟨imports, himports, hs⟩ := skips_imports s.length s
      generalize afterImports s.length s = declarations at h hs
      have hfront := Language.append_mem_mul (Language.append_mem_mul (Language.append_mem_mul
        (Set.mem_singleton "<?php".toList) hspace) hnamespaces) himports
      have hmem := Language.append_mem_mul hfront ((outside_of_declaresOnly h).2 rfl)
      rw [← mul_assoc] at hmem
      have hopen : outside .start ("<?php".toList ++ rest) = "<?php".toList ++ outside .start rest :=
        rfl
      rw [hopen, hrest, outside_blanks hspace, hnamespace,
        outside_written ((Over.one.add over_namespaceStatement) namespaces hnamespaces), hs,
        outside_written (over_importStatement.star imports himports), ← List.append_assoc,
        ← List.append_assoc, ← List.append_assoc]
      exact hmem

theorem isDeclarationOnly_eq_ok_iff {source : List Char} {verdict : Bool} :
    isDeclarationOnly source = .ok verdict ↔
      ∃ cleaned, clean .commentsOnly source = .ok cleaned ∧ isDeclarative (collapse cleaned) = verdict := by
  rw [isDeclarationOnly, condense]
  cases clean .commentsOnly source with
  | error fault =>
      constructor
      · intro h
        cases h
      · rintro ⟨_, h, _⟩
        cases h
  | ok cleaned =>
      constructor
      · intro h
        exact ⟨cleaned, rfl, Except.ok.inj h⟩
      · rintro ⟨_, h, rfl⟩
        cases h
        rfl

end ExtensionLint.Script
