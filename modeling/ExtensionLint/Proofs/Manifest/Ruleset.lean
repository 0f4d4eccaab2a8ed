import Mathlib.Data.List.TakeDrop
import Mathlib.Data.List.TakeWhile
import ExtensionLint.Manifest.Grammar.Reader
import ExtensionLint.Proofs.Data.Entries
import ExtensionLint.Proofs.Manifest.Conformance

/-!
# Keys and rulesets

`Cut` cuts a key at its first colon, `Declares` says what an entry of a ruleset declares, and `Ruled`
which rules the entries make together. A key comes back in full as the name of the ruleset for the
child (`Cut.ruleset_eq`), and the last key that covers an element governs it
(`resolve?_eq_some_iff_lastCovering`).
-/

namespace ExtensionLint

/-! ## Keys -/

/-- A key cut at its first colon, into a context and an element. Without a colon there is no context. -/
inductive Cut : String → Option String → String → Prop
  | plain {element : String} : ':' ∉ element.toList → Cut element none element
  | inContext {context element : String} : ':' ∉ context.toList →
      Cut (context ++ ":" ++ element) (some context) element

namespace Cut

variable {key element element' : String} {context context' : Option String}

theorem ruleset_eq (h : Cut key context element) : (ChildKey.mk context element).ruleset = key := by
  cases h <;> rfl

/-- What a reader of the key finds before and from the first colon on. -/
theorem span_eq (h : Cut key context element) : key.toList.span (· != ':') =
    match context with
    | none => (element.toList, [])
    | some context => (context.toList, ':' :: element.toList) := by
  have hplain : ∀ {s : String}, ':' ∉ s.toList → ∀ c ∈ s.toList, (c != ':') = true :=
    fun hs c hc => bne_iff_ne.mpr fun heq => hs (heq ▸ hc)
  cases h with
  | plain hs =>
    rw [List.span_eq_takeWhile_dropWhile, List.takeWhile_eq_self_iff.mpr (hplain hs),
      List.dropWhile_eq_nil_iff.mpr (hplain hs)]
  | inContext hs =>
    rw [List.span_eq_takeWhile_dropWhile, String.toList_append, String.toList_append,
      List.append_assoc, List.takeWhile_append_of_pos (hplain hs),
      List.dropWhile_append_of_pos (hplain hs)]
    simp

theorem unique (h : Cut key context element) (h' : Cut key context' element') :
    context = context' ∧ element = element' := by
  have hspan := h.span_eq.symm.trans h'.span_eq
  cases context <;> cases context' <;> simp_all [String.toList_inj]

end Cut

theorem exists_cut (key : String) : ∃ context element, Cut key context element := by
  by_cases hcolon : ':' ∈ key.toList
  · obtain ⟨before, after, hkey, hbefore⟩ := List.eq_append_cons_of_mem hcolon
    have hkey : String.ofList before ++ ":" ++ String.ofList after = key := by
      rw [← String.toList_inj, hkey]
      simp
    have hcut : Cut (String.ofList before ++ ":" ++ String.ofList after)
        (some (String.ofList before)) (String.ofList after) := .inContext (by simpa using hbefore)
    exact ⟨_, _, hkey ▸ hcut⟩
  · exact ⟨_, _, .plain hcolon⟩

/-- A key is read as it is cut, unless one of its parts is empty. -/
theorem ChildKey.parse?_of_cut {key element : String} {context : Option String}
    (h : Cut key context element) :
    parse? key = if element = "" ∨ context = some "" then none else some ⟨context, element⟩ := by
  rw [parse?, h.span_eq]
  obtain ⟨e, rfl⟩ : ∃ e, element = String.ofList e := ⟨_, String.ofList_toList.symm⟩
  cases context with
  | none => cases e <;> simp
  | some context =>
    obtain ⟨c, rfl⟩ : ∃ c, context = String.ofList c := ⟨_, String.ofList_toList.symm⟩
    cases c <;> cases e <;> simp

theorem ChildKey.parse?_eq_some_iff {key : String} {k : ChildKey} :
    parse? key = some k ↔ Cut key k.context k.element ∧ k.element ≠ "" ∧ k.context ≠ some "" := by
  obtain ⟨context, element, hcut⟩ := exists_cut key
  rw [parse?_of_cut hcut, ite_eq_iff]
  constructor
  · rintro (⟨-, ⟨⟩⟩ | ⟨hfilled, hk⟩)
    obtain rfl := Option.some.inj hk
    exact ⟨hcut, not_or.mp hfilled⟩
  · rintro ⟨hk, hfilled⟩
    obtain ⟨rfl, rfl⟩ := hcut.unique hk
    exact .inr ⟨not_or.mpr hfilled, rfl⟩

theorem ChildMode.ofSymbol?_eq_some_iff {symbol : String} {mode : ChildMode} :
    ofSymbol? symbol = some mode ↔ symbol = mode.symbol := by
  constructor
  · intro h
    have hfound := List.find?_some h
    exact (of_decide_eq_true hfound).symm
  · rintro rfl
    exact ofSymbol?_symbol mode

namespace Grammar

open Data Manifest

/-! ## The entries of a ruleset -/

/-- A key covers the element that its part behind the first colon names. -/
def Covers (key element : String) : Prop := ∃ context, Cut key context element

theorem covers_iff {key element element' : String} {context : Option String}
    (h : Cut key context element) : Covers key element' ↔ element = element' := by
  constructor
  · rintro ⟨_, h'⟩
    exact (h.unique h').2
  · rintro rfl
    exact ⟨context, h⟩

/-- What an entry of a ruleset declares: a star any children, another key one child. -/
inductive Declares : String × Value → Option ChildRule → Prop
  | star (mode : ChildMode) : Declares ("*", .text mode.symbol) none
  | child {key element : String} {context : Option String} (mode : ChildMode) : key ≠ "*" →
      Cut key context element → element ≠ "" → context ≠ some "" →
      Declares (key, .text mode.symbol) (some ⟨⟨context, element⟩, mode⟩)

variable {document ruleset key : String} {mode : Value} {rule : Option ChildRule}
  {es : List (String × Value)} {rules : List (Option ChildRule)}

theorem childRuleOf_eq_ok_iff :
    childRuleOf document ruleset key mode = .ok rule ↔ Declares (key, mode) rule := by
  constructor
  · intro h
    unfold childRuleOf at h
    split at h <;> try contradiction
    split at h <;> try contradiction
    rename_i mode hmode
    obtain rfl := ChildMode.ofSymbol?_eq_some_iff.mp hmode
    split_ifs at h with hstar
    · obtain rfl := Except.ok.inj h
      exact hstar ▸ .star mode
    · split at h <;> try contradiction
      rename_i k hk
      obtain rfl := Except.ok.inj h
      obtain ⟨hcut, helement, hcontext⟩ := ChildKey.parse?_eq_some_iff.mp hk
      exact .child mode hstar hcut helement hcontext
  · intro h
    cases h with
    | star mode => simp [childRuleOf, ChildMode.ofSymbol?_symbol, wildcard, pure, Except.pure]
    | @child _ element context mode hstar hcut helement hcontext =>
      have hk : ChildKey.parse? key = some ⟨context, element⟩ :=
        ChildKey.parse?_eq_some_iff.mpr ⟨hcut, helement, hcontext⟩
      simp [childRuleOf, ChildMode.ofSymbol?_symbol, wildcard, hstar, hk, pure, Except.pure]

theorem exists_declares_iff : (∃ rule, Declares (key, mode) rule) ↔
    (∃ symbol ∈ ["!", "=", "?", "*"], mode = .text symbol) ∧
      (key ≠ "*" → ∃ context element, Cut key context element ∧ element ≠ "" ∧ context ≠ some "") := by
  have hsymbol : ∀ symbol, symbol ∈ ["!", "=", "?", "*"] ↔ ∃ m : ChildMode, symbol = m.symbol := by
    intro symbol
    rw [show ["!", "=", "?", "*"] = ChildMode.all.map ChildMode.symbol by decide, List.mem_map]
    exact ⟨fun ⟨m, _, hm⟩ => ⟨m, hm.symm⟩, fun ⟨m, hm⟩ => ⟨m, by cases m <;> decide, hm.symm⟩⟩
  constructor
  · rintro ⟨_, h⟩
    cases h with
    | star m => exact ⟨⟨_, (hsymbol _).mpr ⟨m, rfl⟩, rfl⟩, fun hne => absurd rfl hne⟩
    | child m _ hcut helement hcontext =>
      exact ⟨⟨_, (hsymbol _).mpr ⟨m, rfl⟩, rfl⟩, fun _ => ⟨_, _, hcut, helement, hcontext⟩⟩
  · rintro ⟨⟨symbol, hmem, rfl⟩, hkey⟩
    obtain ⟨m, rfl⟩ := (hsymbol symbol).mp hmem
    by_cases hstar : key = "*"
    · exact ⟨none, hstar ▸ Declares.star m⟩
    · obtain ⟨context, element, hcut, helement, hcontext⟩ := hkey hstar
      exact ⟨_, .child m hstar hcut helement hcontext⟩

theorem childRulesOf_eq_ok_iff {found : Option ChildRules} :
    childRulesOf document ruleset es = .ok found ↔ ∃ rules, List.Forall₂ Declares es rules ∧
      (if rules.isEmpty then none else some (joined rules)) = found := by
  simp only [childRulesOf, bind_eq_ok_iff, mapM_eq_ok_iff, childRuleOf_eq_ok_iff, pure, Except.pure,
    Except.ok.injEq]

/-- A rule as a document writes it. -/
def written (rule : ChildRule) : String × Value := (rule.key.ruleset, .text rule.mode.symbol)

/-- The rules that a ruleset with these entries has. Without a star each entry is a rule, in its order
and with its full key. -/
inductive Ruled : List (String × Value) → Option ChildRules → Prop
  | absent : Ruled [] none
  | wildcard {es : List (String × Value)} : "*" ∈ es.map Prod.fst → Ruled es (some .wildcard)
  | declared {rules : List ChildRule} : rules ≠ [] → "*" ∉ rules.map (·.key.ruleset) →
      (∀ rule ∈ rules, Cut rule.key.ruleset rule.key.context rule.key.element) →
      Ruled (rules.map written) (some (.declared rules))

theorem none_mem_iff_of_declares (h : List.Forall₂ Declares es rules) :
    none ∈ rules ↔ "*" ∈ es.map Prod.fst := by
  induction h with
  | nil => simp
  | cons hrule _ ih =>
    rw [List.mem_cons, List.map_cons, List.mem_cons, ih]
    cases hrule with
    | star m => simp
    | child m hstar => simp [hstar.symm]

theorem written_of_declares (h : List.Forall₂ Declares es rules) (hstar : none ∉ rules) :
    ∃ rs : List ChildRule, rules = rs.map some ∧ rs.map written = es ∧
      ∀ rule ∈ rs, Cut rule.key.ruleset rule.key.context rule.key.element := by
  induction h with
  | nil => exact ⟨[], rfl, rfl, by simp⟩
  | cons hrule _ ih =>
    rw [List.mem_cons, not_or] at hstar
    obtain ⟨rs, rfl, rfl, hcuts⟩ := ih hstar.2
    cases hrule with
    | star m => exact absurd rfl hstar.1
    | @child key element context m _ hcut =>
      refine ⟨⟨⟨context, element⟩, m⟩ :: rs, rfl, ?_, List.forall_mem_cons.mpr ⟨?_, hcuts⟩⟩
      · rw [List.map_cons, written, hcut.ruleset_eq]
      · exact hcut.ruleset_eq.symm ▸ hcut

theorem ruled_of_childRulesOf {found : Option ChildRules}
    (h : childRulesOf document ruleset es = .ok found) : Ruled es found := by
  obtain ⟨rules, hrules, rfl⟩ := childRulesOf_eq_ok_iff.mp h
  by_cases hstar : none ∈ rules
  · rw [if_neg (by simp [List.ne_nil_of_mem hstar]), joined,
      if_pos (List.contains_iff_mem.mpr hstar)]
    exact .wildcard ((none_mem_iff_of_declares hrules).mp hstar)
  · obtain ⟨rs, rfl, rfl, hcuts⟩ := written_of_declares hrules hstar
    cases rs with
    | nil => exact .absent
    | cons rule rs =>
      have hkeys : "*" ∉ (rule :: rs).map (·.key.ruleset) := by
        rwa [none_mem_iff_of_declares hrules, List.map_map] at hstar
      have hjoined : joined ((rule :: rs).map some) = .declared (rule :: rs) := by
        rw [joined, if_neg (by simp), List.filterMap_map]
        exact congrArg _ List.filterMap_some
      rw [hjoined]
      exact .declared (List.cons_ne_nil rule rs) hkeys hcuts

namespace Ruled

variable {found : Option ChildRules}

theorem eq_none_iff (h : Ruled es found) : found = none ↔ es = [] := by
  cases h with
  | absent => simp
  | wildcard hstar => simpa using List.ne_nil_of_mem hstar
  | declared hne => simpa using hne

theorem eq_wildcard_iff (h : Ruled es found) :
    found = some .wildcard ↔ "*" ∈ es.map Prod.fst := by
  cases h with
  | absent => simp
  | wildcard hstar => simpa using hstar
  | declared _ hstar => simpa [written, Function.comp_def] using hstar

theorem map_written {rules : List ChildRule} (h : Ruled es (some (.declared rules))) :
    rules.map written = es := by
  cases h
  rfl

end Ruled

/-! ## The last key for an element -/

/-- The key is the last one of a ruleset that covers the element. -/
def LastCovering (keys : List String) (element key : String) : Prop :=
  ∃ before after, keys = before ++ key :: after ∧ Covers key element ∧
    ∀ later ∈ after, ¬ Covers later element

section Rules

variable {rs : List ChildRule} {element : String}
  (hcut : ∀ rule ∈ rs, Cut rule.key.ruleset rule.key.context rule.key.element)

include hcut

theorem lastCovering_iff : LastCovering (rs.map (·.key.ruleset)) element key ↔
    ∃ rule, LastRule rs element rule ∧ rule.key.ruleset = key := by
  constructor
  · rintro ⟨before, after, hkeys, hcovers, hafter⟩
    obtain ⟨rsBefore, rest, rfl, -, hrest⟩ := List.map_eq_append_iff.mp hkeys
    obtain ⟨rule, rsAfter, rfl, rfl, rfl⟩ := List.map_eq_cons_iff.mp hrest
    refine ⟨rule, ⟨rsBefore, rsAfter, rfl, ?_, fun r hr => ?_⟩, rfl⟩
    · exact (covers_iff (hcut rule (by simp))).mp hcovers
    · rw [Ne, ← covers_iff (hcut r (by simp [hr]))]
      exact hafter _ (List.mem_map_of_mem hr)
  · rintro ⟨rule, ⟨before, after, rfl, helement, hafter⟩, rfl⟩
    refine ⟨_, after.map (·.key.ruleset), List.map_append.trans (by rw [List.map_cons]), ?_, ?_⟩
    · exact (covers_iff (hcut rule (by simp))).mpr helement
    · rw [List.forall_mem_map]
      intro r hr
      rw [covers_iff (hcut r (by simp [hr]))]
      exact hafter r hr

end Rules

/-- Without a star, an element is governed by the last key that covers it. -/
theorem resolve?_eq_some_iff_lastCovering {g : Grammar} {element : String}
    (h : Ruled es (g.childRules? ruleset)) (hstar : "*" ∉ es.map Prod.fst) :
    g.resolve? ruleset element = some key ↔ LastCovering (es.map Prod.fst) element key := by
  rw [Grammar.resolve?]
  generalize g.childRules? ruleset = found at h
  cases h with
  | absent => simp [LastCovering]
  | wildcard hmem => exact absurd hmem hstar
  | @declared rs _ _ hcut =>
    rw [List.map_map, Option.bind_some, Option.map_eq_some_iff]
    simp only [resolve?_declared_eq_some_iff]
    exact (lastCovering_iff hcut).symm

theorem resolve?_eq_none_iff_covers {g : Grammar} {element : String}
    (h : Ruled es (g.childRules? ruleset)) (hstar : "*" ∉ es.map Prod.fst) :
    g.resolve? ruleset element = none ↔ ∀ key ∈ es.map Prod.fst, ¬ Covers key element := by
  rw [Grammar.resolve?]
  generalize g.childRules? ruleset = found at h
  cases h with
  | absent => simp
  | wildcard hmem => exact absurd hmem hstar
  | @declared rs _ _ hcut =>
    rw [Option.bind_some, Option.map_eq_none_iff, resolve?_declared_eq_none_iff, List.map_map,
      List.forall_mem_map]
    exact forall₂_congr fun rule hrule => not_congr (covers_iff (hcut rule hrule)).symm

end Grammar
end ExtensionLint
