import ExtensionLint.Proofs.Script.Declarations
import ExtensionLint.Proofs.Text.PlainLines

/-!
# Reading what a language generates

In the other direction from `Takes`, a reader finds each word of its language in front of a text, as long
as what follows does not belong to the word (`Finds`). A statement ends at its first semicolon, whichever
way it is read (`Ends`), so in condensed text its reader leaves what stands behind it and perhaps one space
(`afterNamespace?_append`, `afterImport?_append`).
-/

namespace ExtensionLint.Script

open Text
open Script.Grammar
open Computability

/-! ## Spaces -/

/-- Text without blanks but single spaces in front of words. -/
inductive Spaced : List Char → Prop
  | nil : Spaced []
  | visible {c : Char} {s : List Char} : isBlank c = false → Spaced s → Spaced (c :: s)
  | space {c : Char} {s : List Char} : isBlank c = false → Spaced (c :: s) → Spaced (' ' :: c :: s)

theorem after?_cons_of_ne {x c : Char} (h : x ≠ c) (further s : List Char) :
    after? (x :: further) (c :: s) = none := by
  have hne : (x == c) = false := beq_eq_false_iff_ne.mpr h
  simp only [after?, List.isPrefixOf?, hne, Bool.false_eq_true, ↓reduceIte]

theorem afterSpace_cons_of_ne {c : Char} (h : c ≠ ' ') (s : List Char) :
    afterSpace (c :: s) = c :: s := by
  rw [afterSpace, after?_cons_of_ne (Ne.symm h)]
  rfl

namespace Spaced

variable {c : Char} {a s : List Char}

theorem tail (h : Spaced (c :: s)) : Spaced s := by
  cases h with
  | visible _ hs => exact hs
  | space _ hs => exact hs

theorem of_append (h : Spaced (a ++ s)) : Spaced s := by
  induction a with
  | nil => exact h
  | cons c a ih => exact ih h.tail

theorem trimStart_eq (h : Spaced s) : trimStart s = afterSpace s := by
  cases h with
  | nil => rfl
  | @visible c s hc _ =>
      have hne : c ≠ ' ' := by
        rintro rfl
        cases hc
      rw [afterSpace_cons_of_ne hne]
      exact List.dropWhile_cons_of_neg (Bool.eq_false_iff.mp hc)
  | space hc _ => exact List.dropWhile_cons_of_neg (Bool.eq_false_iff.mp hc)

/-- Only one space stands between two words, so it is taken off with either of them. -/
theorem afterSpace_append {g : List Char} (hg : g ∈ gap) (h : Spaced (g ++ s)) :
    afterSpace (g ++ s) = afterSpace s := by
  rcases hg with rfl | rfl
  · rfl
  · cases h with
    | visible hc _ => cases hc
    | @space c s hc _ =>
        have hne : c ≠ ' ' := by
          rintro rfl
          cases hc
        exact (afterSpace_cons_of_ne hne s).symm

end Spaced

theorem spaced_tidy (spacing : Spacing) (s : List Char) : Spaced (tidy spacing s) := by
  induction s generalizing spacing with
  | nil => exact .nil
  | cons c s ih =>
      cases hc : isBlank c with
      | true =>
          rw [tidy_blank hc]
          exact ih spacing.blank
      | false =>
          have hword : Spaced (c :: tidy .tight s) := .visible hc (ih .tight)
          rw [tidy_visible hc]
          cases spacing with
          | fresh => exact hword
          | tight => exact hword
          | loose => exact .space hc hword

theorem spaced_of_condense {source condensed : List Char} (h : condense source = .ok condensed) :
    Spaced condensed := by
  rw [condense] at h
  cases hclean : clean .commentsOnly source with
  | error fault =>
      rw [hclean] at h
      cases h
  | ok cleaned =>
      rw [hclean] at h
      obtain rfl := Except.ok.inj h
      rw [collapse_eq_tidy]
      exact spaced_tidy .fresh cleaned

/-! ## Finding words -/

/-- The reader takes exactly the word off the front of a text that goes on as it should. -/
def Finds (reader : List Char → Option (List Char)) (l : Language Char) (follow : List Char → Prop) :
    Prop := ∀ a ∈ l, ∀ rest, follow rest → reader (a ++ rest) = some rest

/-- The same for a reader that does not fail. -/
def Drops (reader : List Char → List Char) (l : Language Char) (follow : List Char → Prop) : Prop :=
  ∀ a ∈ l, ∀ rest, follow rest → reader (a ++ rest) = rest

/-- What begins with a word of the language, and goes on as `follow` says, is as `start` says. -/
def Precedes (l : Language Char) (follow start : List Char → Prop) : Prop :=
  ∀ a ∈ l, ∀ rest, follow rest → start (a ++ rest)

section

variable {f g : List Char → Option (List Char)} {h k : List Char → List Char} {l m : Language Char}
  {F G H : List Char → Prop}

namespace Precedes

theorem mul (hl : Precedes l G H) (hm : Precedes m F G) : Precedes (l * m) F H := by
  rintro _ ⟨a, ha, b, hb, rfl⟩ rest hrest
  rw [List.append_assoc]
  exact hl a ha _ (hm b hb rest hrest)

theorem front (hl : Precedes l (fun _ => True) H) : Precedes (l * m) F H :=
  hl.mul fun _ _ _ _ => trivial

theorem add (hl : Precedes l F G) (hm : Precedes m F G) : Precedes (l + m) F G := by
  rintro a (ha | ha)
  · exact hl a ha
  · exact hm a ha

theorem one (h : ∀ rest, F rest → G rest) : Precedes 1 F G := by
  rintro _ rfl
  exact h

/-- Each word of the star begins as the language does. -/
theorem star (h : ∀ rest, F rest → G rest) (hl : Precedes l (fun _ => True) G) :
    Precedes l∗ F G := by
  intro a ha rest hrest
  obtain ⟨words, rfl, hwords⟩ := Language.mem_kstar.mp ha
  cases words with
  | nil => exact h rest hrest
  | cons w words =>
      rw [List.flatten_cons, List.append_assoc]
      exact hl w (hwords w List.mem_cons_self) _ trivial

end Precedes

theorem Finds.bind (hf : Finds f l F) (hg : Finds g m G) (hnext : Precedes m G F) :
    Finds (fun s => (f s).bind g) (l * m) G := by
  rintro _ ⟨a, ha, b, hb, rfl⟩ rest hrest
  dsimp only
  rw [List.append_assoc, hf a ha _ (hnext b hb rest hrest), Option.bind_some]
  exact hg b hb rest hrest

theorem Finds.mono (hf : Finds f l F) (h : ∀ rest, G rest → F rest) : Finds f l G :=
  fun a ha rest hrest => hf a ha rest (h rest hrest)

theorem Finds.optional (hf : Finds f l F) (hnone : ∀ rest, F rest → f rest = none) :
    Drops (afterOptional f) (1 + l) F := by
  rintro a (rfl | ha) rest hrest
  · exact (congrArg (Option.getD · rest) (hnone rest hrest))
  · rw [afterOptional, hf a ha rest hrest]
    rfl

theorem Drops.comp (hh : Drops h l F) (hf : Finds f m G) (hnext : Precedes m G F) :
    Finds (fun s => f (h s)) (l * m) G := by
  rintro _ ⟨a, ha, b, hb, rfl⟩ rest hrest
  dsimp only
  rw [List.append_assoc, hh a ha _ (hnext b hb rest hrest)]
  exact hf b hb rest hrest

theorem Drops.trans (hh : Drops h l F) (hk : Drops k m G) (hnext : Precedes m G F) :
    Drops (fun s => k (h s)) (l * m) G := by
  rintro _ ⟨a, ha, b, hb, rfl⟩ rest hrest
  dsimp only
  rw [List.append_assoc, hh a ha _ (hnext b hb rest hrest)]
  exact hk b hb rest hrest

theorem Drops.finds (hh : Drops h l F) : Finds (fun s => some (h s)) l F :=
  fun a ha rest hrest => congrArg some (hh a ha rest hrest)

/-- A reader that takes words as long as it can finds all of them. The size of the text bounds their
number, as no word is empty. -/
theorem Finds.star {loop : Nat → List Char → List Char} (hf : Finds f l F) (hzero : ∀ s, loop 0 s = s)
    (hsucc : ∀ n s, loop (n + 1) s = match f s with | some rest => loop n rest | none => s)
    (hnone : ∀ rest, G rest → f rest = none) (hnext : Precedes l∗ G F) :
    Drops (fun s => loop s.length s) l∗ G := by
  intro a ha rest hrest
  have hstop (n : Nat) : loop n rest = rest := by
    cases n with
    | zero => exact hzero rest
    | succ n => rw [hsucc, hnone rest hrest]
  obtain ⟨words, rfl, hwords⟩ := Language.mem_kstar_iff_exists_nonempty.mp ha
  have hloop (n : Nat) (hn : words.flatten.length ≤ n) : loop n (words.flatten ++ rest) = rest := by
    induction words generalizing n with
    | nil => exact hstop n
    | cons w words ih =>
        obtain ⟨⟨hw, hne⟩, hwords⟩ := List.forall_mem_cons.mp hwords
        have htail : words.flatten ∈ l∗ := Language.join_mem_kstar fun y hy => (hwords y hy).1
        rw [List.flatten_cons, List.length_append] at hn
        have hpos := List.length_pos_iff.mpr hne
        obtain ⟨n, rfl⟩ := Nat.exists_eq_succ_of_ne_zero (n := n) (by omega)
        rw [hsucc, List.flatten_cons, List.append_assoc, hf w hw _ (hnext _ htail rest hrest)]
        exact ih hwords htail n (by omega)
  exact hloop _ (by rw [List.length_append]; omega)

end

/-! ## Single readers -/

/-- No character of the class goes on. -/
def Stops (member : Char → Bool) (s : List Char) : Prop := ∀ c ∈ s.head?, member c = false

/-- The text goes on with one of the signs, perhaps behind a space; only a sign behind a space may be a
character of a name. -/
def Opens (signs : List Char) (s : List Char) : Prop :=
  ∃ c ∈ signs, ∃ t, s = ' ' :: c :: t ∨ isPathChar c = false ∧ s = c :: t

theorem stops_of_opens {signs s : List Char} (h : Opens signs s) : Stops isPathChar s := by
  obtain ⟨c, _, t, rfl | ⟨hc, rfl⟩⟩ := h
  · rintro x ⟨⟩
    rfl
  · rintro x ⟨⟩
    exact hc

theorem stops_isNameChar {s : List Char} (h : Stops isPathChar s) : Stops isNameChar s := by
  intro c hc
  have hpath := h c hc
  rw [isPathChar, Bool.or_eq_false_iff] at hpath
  exact hpath.1

theorem Opens.mono {signs signs' s : List Char} (h : Opens signs s) (hsigns : signs ⊆ signs') :
    Opens signs' s := by
  obtain ⟨c, hc, further⟩ := h
  exact ⟨c, hsigns hc, further⟩

theorem precedes_gap {c : Char} (h : isPathChar c = false) :
    Precedes gap (fun rest => ∃ t, rest = c :: t) (Opens [c]) := by
  rintro g (rfl | rfl) rest ⟨t, rfl⟩
  · exact ⟨c, List.mem_singleton_self c, t, .inr ⟨h, rfl⟩⟩
  · exact ⟨c, List.mem_singleton_self c, t, .inl rfl⟩

theorem precedes_optional {w : String} {c : Char} {further signs : List Char}
    (hw : w.toList = ' ' :: c :: further) (l : Language Char) :
    Precedes (1 + word w * l) (Opens signs) (Opens (c :: signs)) := by
  refine .add (.one fun rest hrest => hrest.mono (List.subset_cons_self c signs)) ?_
  rintro _ ⟨_, rfl, b, _, rfl⟩ rest _
  exact ⟨c, List.mem_cons_self, further ++ (b ++ rest), .inl (by simp [hw])⟩

theorem finds_word (w : String) : Finds (after? w.toList) (word w) fun _ => True := by
  rintro _ rfl rest _
  exact List.isPrefixOf?_eq_some_iff_append_eq.mpr rfl

theorem finds_run (member : Char → Bool) : Finds (afterSome? member) (run member) (Stops member) := by
  rintro a ⟨hne, ha⟩ rest hrest
  have hdrop : rest.dropWhile member = rest := by
    cases rest with
    | nil => rfl
    | cons c rest => exact List.dropWhile_cons_of_neg (Bool.eq_false_iff.mp (hrest c rfl))
  cases a with
  | nil => exact absurd rfl hne
  | cons c a =>
      obtain ⟨hc, ha⟩ := List.forall_mem_cons.mp ha
      rw [List.cons_append, afterSome?, if_pos hc, List.dropWhile_append_of_pos ha, hdrop]

theorem drops_gap : Drops afterSpace gap fun rest => afterSpace rest = rest := by
  rintro g (rfl | rfl) rest hrest
  · exact hrest
  · rfl

/-! ## Statements -/

/-- The text behind the first semicolon. -/
def EndsAt (s u : List Char) : Prop := ∃ front, s = front ++ ';' :: u ∧ ';' ∉ front

theorem EndsAt.unique {s u u' : List Char} (h : EndsAt s u) (h' : EndsAt s u') : u = u' := by
  obtain ⟨front, rfl, hfront⟩ := h
  obtain ⟨front', heq, hfront'⟩ := h'
  exact (append_cons_inj hfront hfront' heq).2

/-- The reader goes as far as the first semicolon and one space behind it. -/
def Ends (reader : List Char → Option (List Char)) : Prop :=
  ∀ s rest, reader s = some rest → ∃ u, EndsAt s u ∧ rest = afterSpace u

def unended (c : Char) : Bool := c != ';'

namespace Ends

variable {f g : List Char → Option (List Char)} {h : List Char → List Char} {l : Language Char}

theorem behind {a s u : List Char} (ha : ∀ c ∈ a, unended c = true) (hs : EndsAt s u) :
    EndsAt (a ++ s) u := by
  obtain ⟨front, rfl, hfront⟩ := hs
  refine ⟨a ++ front, (List.append_assoc _ _ _).symm, ?_⟩
  rw [List.mem_append, not_or]
  exact ⟨fun hmem => absurd (ha _ hmem) (by decide), hfront⟩

theorem bind (hf : Takes f l) (hl : Over unended l) (hg : Ends g) : Ends fun s => (f s).bind g := by
  intro s rest hs
  obtain ⟨t, hft, hgt⟩ := Option.bind_eq_some_iff.mp hs
  obtain ⟨a, ha, rfl⟩ := hf s t hft
  obtain ⟨u, hu, hrest⟩ := hg t rest hgt
  exact ⟨u, behind (hl a ha) hu, hrest⟩

theorem comp (hh : Skips h l) (hl : Over unended l) (hg : Ends g) : Ends fun s => g (h s) := by
  intro s rest hs
  obtain ⟨a, ha, has⟩ := hh s
  obtain ⟨u, hu, hrest⟩ := hg (h s) rest hs
  exact ⟨u, has ▸ behind (hl a ha) hu, hrest⟩

theorem or (hf : Ends f) (hg : Ends g) : Ends fun s => (f s).or (g s) := by
  intro s rest hs
  rcases Option.or_eq_some_iff.mp hs with hs | ⟨_, hs⟩
  · exact hf s rest hs
  · exact hg s rest hs

end Ends

theorem ends_semicolon : Ends afterSemicolon? := by
  intro s rest hs
  obtain ⟨u, hu, rfl⟩ := Option.map_eq_some_iff.mp hs
  obtain ⟨_, ⟨g, hg, _, rfl, rfl⟩, rfl⟩ := takes_mark (w := ";") rfl s u hu
  refine ⟨u, ⟨g, by rw [List.append_assoc]; rfl, ?_⟩, rfl⟩
  rcases hg with rfl | rfl <;> decide

theorem unended_of_isPathChar (c : Char) (h : isPathChar c = true) : unended c = true := by
  refine bne_iff_ne.mpr ?_
  rintro rfl
  cases h

theorem over_unended_path : Over unended path := .run unended_of_isPathChar

theorem over_unended_alias : Over unended (1 + word " as " * name) := by
  refine .add .one (.mul (.word rfl) (.run fun c hc => unended_of_isPathChar c ?_))
  rw [isPathChar, hc, Bool.true_or]

theorem ends_namespace : Ends afterNamespace? :=
  .bind (takes_word "namespace ") (.word rfl) (.bind (takes_run isPathChar) over_unended_path ends_semicolon)

theorem ends_imported : Ends afterImported? :=
  .bind (takes_run isPathChar) over_unended_path
    (.comp ((takes_word " as ").bind (takes_run isNameChar)).optional over_unended_alias ends_semicolon)

theorem ends_import : Ends afterImport? := by
  have hkind := Ends.bind ((takes_word "function ").or (takes_word "const "))
    (.add (.word rfl) (.word rfl)) ends_imported
  exact .bind (takes_word "use ") (.word rfl) (hkind.or ends_imported)

/-- The reader does not fail on a word of the language, whatever follows. -/
def Succeeds (reader : List Char → Option (List Char)) (l : Language Char) : Prop :=
  ∀ a ∈ l, ∀ rest, (reader (a ++ rest)).isSome = true

/-- A statement is read to its end. What is left has no space in front, unless there was none to take. -/
theorem Succeeds.reads {reader : List Char → Option (List Char)} {l : Language Char}
    (h : Succeeds reader (l * semicolon)) (hends : Ends reader) (hl : Over unended l) {a rest : List Char}
    (ha : a ∈ l * semicolon) (hs : Spaced (a ++ rest)) : reader (a ++ rest) = some (afterSpace rest) := by
  obtain ⟨r, hr⟩ := Option.isSome_iff_exists.mp (h a ha rest)
  -- the word and what the reader takes end at the same semicolon, the first one
  obtain ⟨u, hu, rfl⟩ := hends _ _ hr
  obtain ⟨x, hx, _, ⟨_, ⟨g, hg, _, rfl, rfl⟩, g', hg', rfl⟩, rfl⟩ := ha
  have heq : x ++ (g ++ [';'] ++ g') ++ rest = x ++ (g ++ ';' :: (g' ++ rest)) := by
    simp only [List.append_assoc, List.cons_append, List.nil_append]
  have hsign : EndsAt (g ++ ';' :: (g' ++ rest)) (g' ++ rest) := by
    refine ⟨g, rfl, ?_⟩
    rcases hg with rfl | rfl <;> decide
  have hend : EndsAt (x ++ (g ++ [';'] ++ g') ++ rest) (g' ++ rest) := by
    rw [heq]
    exact Ends.behind (hl x hx) hsign
  obtain rfl := hu.unique hend
  have hspaced : Spaced (g' ++ rest) := by
    have hs : Spaced (x ++ (g ++ [';'] ++ g') ++ rest) := hs
    rw [heq] at hs
    exact hs.of_append.of_append.tail
  rw [← hspaced.afterSpace_append hg']
  exact hr

section

variable {f g : List Char → Option (List Char)} {h : List Char → List Char} {l m : Language Char}
  {F : List Char → Prop}

theorem Finds.succeeds (hf : Finds f l F) (hg : Succeeds g m) (hnext : Precedes m (fun _ => True) F) :
    Succeeds (fun s => (f s).bind g) (l * m) := by
  rintro _ ⟨a, ha, b, hb, rfl⟩ rest
  dsimp only
  rw [List.append_assoc, hf a ha _ (hnext b hb rest trivial), Option.bind_some]
  exact hg b hb rest

theorem Drops.succeeds (hh : Drops h l F) (hg : Succeeds g m) (hnext : Precedes m (fun _ => True) F) :
    Succeeds (fun s => g (h s)) (l * m) := by
  rintro _ ⟨a, ha, b, hb, rfl⟩ rest
  dsimp only
  rw [List.append_assoc, hh a ha _ (hnext b hb rest trivial)]
  exact hg b hb rest

end

theorem precedes_semicolon : Precedes semicolon (fun _ => True) (Opens [';']) := by
  rintro _ ⟨_, ⟨g, hg, _, rfl, rfl⟩, g', _, rfl⟩ rest _
  dsimp only
  rw [List.append_assoc, List.append_assoc]
  exact precedes_gap rfl g hg _ ⟨g' ++ rest, rfl⟩

theorem succeeds_semicolon : Succeeds afterSemicolon? semicolon := by
  rintro _ ⟨_, ⟨g, hg, _, rfl, rfl⟩, g', _, rfl⟩ rest
  dsimp only
  rw [List.append_assoc, List.append_assoc]
  rcases hg with rfl | rfl <;> rfl

theorem succeeds_namespace : Succeeds afterNamespace? namespaceStatement := by
  have hpath : Precedes semicolon (fun _ => True) (Stops isPathChar) :=
    fun a ha rest hrest => stops_of_opens (precedes_semicolon a ha rest hrest)
  have h := (finds_word "namespace ").succeeds
    ((finds_run isPathChar).succeeds succeeds_semicolon hpath) fun _ _ _ _ => trivial
  rw [← mul_assoc] at h
  exact h

theorem succeeds_imported : Succeeds afterImported? (path * (1 + word " as " * name) * semicolon) := by
  have hfinds := (finds_word " as ").bind ((finds_run isNameChar).mono fun rest (h : Opens [';'] rest) =>
    stops_isNameChar (stops_of_opens h)) fun _ _ _ _ => trivial
  have hnone (rest : List Char) (h : Opens [';'] rest) :
      (after? " as ".toList rest).bind (afterSome? isNameChar) = none := by
    obtain ⟨c, hc, t, hrest⟩ := h
    obtain rfl := List.mem_singleton.mp hc
    rcases hrest with rfl | ⟨_, rfl⟩ <;> rfl
  have halias := (hfinds.optional hnone).succeeds succeeds_semicolon precedes_semicolon
  have hnext : Precedes ((1 + word " as " * name) * semicolon) (fun _ => True) (Stops isPathChar) :=
    fun a ha rest hrest =>
      stops_of_opens ((precedes_optional rfl name).mul precedes_semicolon a ha rest hrest)
  have h := (finds_run isPathChar).succeeds halias hnext
  rw [← mul_assoc] at h
  exact h

theorem succeeds_import : Succeeds afterImport? importStatement := by
  have hkind : Succeeds (fun s => (((after? "function ".toList s).or (after? "const ".toList s)).bind
      afterImported?).or (afterImported? s))
      ((1 + (word "function " + word "const ")) * (path * (1 + word " as " * name) * semicolon)) := by
    rintro _ ⟨k, hk, a, ha, rfl⟩ rest
    have himported := succeeds_imported a ha rest
    dsimp only
    rw [List.append_assoc, Option.isSome_or, Bool.or_eq_true]
    rcases hk with rfl | rfl | rfl
    · -- the path may begin with the word `function` itself; then the first reading may do as well
      exact .inr himported
    · exact .inl himported
    · exact .inl himported
  have h := (finds_word "use ").succeeds hkind fun _ _ _ _ => trivial
  simp only [importStatement, mul_assoc] at h ⊢
  exact h

theorem afterNamespace?_append {a rest : List Char} (ha : a ∈ namespaceStatement)
    (hs : Spaced (a ++ rest)) : afterNamespace? (a ++ rest) = some (afterSpace rest) :=
  succeeds_namespace.reads ends_namespace (.mul (.word rfl) over_unended_path) ha hs

theorem afterImport?_append {a rest : List Char} (ha : a ∈ importStatement) (hs : Spaced (a ++ rest)) :
    afterImport? (a ++ rest) = some (afterSpace rest) := by
  have hkind : Over unended (1 + (word "function " + word "const ")) :=
    .add .one (.add (.word rfl) (.word rfl))
  exact succeeds_import.reads ends_import
    (.mul (.mul (.mul (.word rfl) hkind) over_unended_path) over_unended_alias) ha hs

end ExtensionLint.Script
