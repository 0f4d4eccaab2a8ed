import ExtensionLint.Proofs.Manifest.Ruleset

/-!
# What grammar documents say

`Acceptable` says which documents are grammars, by the values under their keys, and `Says` what the
grammar of a document answers (`parse_document`).
-/

namespace ExtensionLint.Grammar

open Data

variable {document ruleset key : String} {es : List (String × Value)}

/-! ## The two parts of a document -/

/-- The entries of the table under a key; there are none if there is no such table. -/
def tableUnder (key : String) (entries : List (String × Value)) : List (String × Value) :=
  ((entries.lookup key).bind entries?).getD []

/-- The modes of the children of a ruleset, by key. -/
def modesOf (entries : List (String × Value)) (ruleset : String) : List (String × Value) :=
  tableUnder ruleset (tableUnder "nodes" entries)

/-- The keys of a ruleset, in the order of the document. -/
def keysOf (entries : List (String × Value)) (ruleset : String) : List String :=
  (modesOf entries ruleset).map Prod.fst

/-- The attributes that are listed for a ruleset. -/
def namesOf (entries : List (String × Value)) (ruleset : String) : List String :=
  (((tableUnder "attributes" entries).lookup ruleset).bind (Value.listOf? Value.text?)).getD []

/-- The documents that are grammars, by their entries: their two parts have the right form, every mode is
a known one, and a key other than a star is not empty, nor is what stands before or behind its colon. -/
structure Acceptable (entries : List (String × Value)) : Prop where
  nodes : ∀ v, ("nodes", v) ∈ entries →
    ∃ rulesets, v = .table rulesets ∧ ∀ e ∈ rulesets, ∃ modes, e.2 = .table modes
  attributes : ∀ v, ("attributes", v) ∈ entries →
    ∃ rulesets, v = .table rulesets ∧
      ∀ e ∈ rulesets, ∃ names : List String, e.2 = .list (names.map .text)
  mode : ∀ ruleset key mode, (key, mode) ∈ modesOf entries ruleset →
    ∃ symbol ∈ ["!", "=", "?", "*"], mode = .text symbol
  key : ∀ ruleset key mode, (key, mode) ∈ modesOf entries ruleset → key ≠ "*" →
    ∃ context element, Cut key context element ∧ element ≠ "" ∧ context ≠ some ""

/-- What the grammar of a document answers, by the entries of the document. Nothing is known of a ruleset
without entries. With a star any children may come; otherwise the rules are the entries, and an element is
governed by the last key that covers it. Attributes are free if the list begins with a star, and otherwise
those of the list. -/
structure Says (entries : List (String × Value)) (g : Grammar) : Prop where
  absent : ∀ ruleset, g.childRules? ruleset = none ↔ modesOf entries ruleset = []
  wildcard : ∀ ruleset, g.childRules? ruleset = some .wildcard ↔ "*" ∈ keysOf entries ruleset
  declared : ∀ ruleset rules, g.childRules? ruleset = some (.declared rules) →
    rules.map written = modesOf entries ruleset
  child : ∀ ruleset, "*" ∉ keysOf entries ruleset → ∀ element key,
    g.resolve? ruleset element = some key ↔ LastCovering (keysOf entries ruleset) element key
  noChild : ∀ ruleset, "*" ∉ keysOf entries ruleset → ∀ element,
    g.resolve? ruleset element = none ↔ ∀ key ∈ keysOf entries ruleset, ¬ Covers key element
  silent : ∀ ruleset, g.attributeRules? ruleset = none ↔ namesOf entries ruleset = []
  anyName : ∀ ruleset rules, g.attributeRules? ruleset = some rules →
    ((∀ name, rules.allows name = true) ↔ (namesOf entries ruleset).head? = some "*")
  listed : ∀ ruleset rules, g.attributeRules? ruleset = some rules →
    (namesOf entries ruleset).head? ≠ some "*" →
    ∀ name, rules.allows name = true ↔ name ∈ namesOf entries ruleset

variable {entries : List (String × Value)}

theorem entries?_eq_some_iff {v : Value} : entries? v = some es ↔ v = .table es := by
  cases v <;> simp [entries?]

theorem tableUnder_eq (hkeys : (entries.map Prod.fst).Nodup) (h : (key, .table es) ∈ entries) :
    tableUnder key entries = es := by
  rw [tableUnder, (lookup_eq_some_iff_mem hkeys).mpr h]
  rfl

theorem mem_tableUnder_iff (hkeys : (entries.map Prod.fst).Nodup) {e : String × Value} :
    e ∈ tableUnder key entries ↔ ∃ es, (key, .table es) ∈ entries ∧ e ∈ es := by
  simp only [tableUnder, ← lookup_eq_some_iff_mem hkeys]
  cases hv : entries.lookup key with
  | none => simp
  | some v => cases v <;> simp [entries?]

/-- What holds of the entries of every table under a key holds of those of the table. -/
theorem forall_mem_tableUnder {α : Type} {read : Value → Option α}
    (hall : ∀ v, (key, v) ∈ entries → ∃ es, v = .table es ∧ ∀ e ∈ es, ∃ a, read e.2 = some a)
    (hkeys : (entries.map Prod.fst).Nodup) :
    ∀ e ∈ tableUnder key entries, ∃ a, read e.2 = some a := by
  intro e he
  obtain ⟨es, hes, he⟩ := (mem_tableUnder_iff hkeys).mp he
  obtain ⟨_, ⟨⟩, hall⟩ := hall _ hes
  exact hall e he

theorem listOf?_text?_eq_some_iff {v : Value} {names : List String} :
    Value.listOf? Value.text? v = some names ↔ v = .list (names.map .text) := by
  have htext : ∀ {v : Value} {s : String}, v.text? = some s ↔ v = .text s := by
    intro v s
    cases v <;> simp [Value.text?]
  cases v with
  | list vs =>
    simp only [Value.listOf?, mapM_eq_some_iff, htext, Value.list.injEq]
    rw [← List.forall₂_map_right_iff, List.forall₂_eq_eq_eq]
  | _ => simp [Value.listOf?]

theorem table?_eq_some_iff {α : Type} {read : Value → Option α} {rs : List (String × α)}
    (hkeys : (es.map Prod.fst).Nodup) : table? read (.table es) = some rs ↔
      (∀ e ∈ es, ∃ a, read e.2 = some a) ∧ readEntries (fun _ => read) es = rs := by
  simp only [table?, entries?, Option.bind_eq_bind, Option.bind_some, Option.bind_eq_some_iff,
    mapM_entries_eq_some_iff, Option.pure_def, Option.some.injEq]
  constructor
  · rintro ⟨_, ⟨hall, rfl⟩, rfl⟩
    exact ⟨hall, (settled_of_nodup (nodup_readEntries hkeys)).symm⟩
  · rintro ⟨hall, rfl⟩
    exact ⟨_, ⟨hall, rfl⟩, settled_of_nodup (nodup_readEntries hkeys)⟩

/-- A table of modes is read as it stands. -/
theorem modes?_table (hkeys : (es.map Prod.fst).Nodup)
    (htexts : ∀ e ∈ es, ∃ symbol, e.2 = .text symbol) : modes? (.table es) = some es := by
  have hplain : areEntriesReadable es = true ∧ depthOfEntries es = 0 := by
    clear hkeys
    induction es with
    | nil => exact ⟨rfl, rfl⟩
    | cons e es ih =>
      obtain ⟨⟨symbol, hsymbol⟩, hrest⟩ := List.forall_mem_cons.mp htexts
      rw [areEntriesReadable, depthOfEntries, hsymbol, (ih hrest).1, (ih hrest).2]
      exact ⟨rfl, rfl⟩
  rw [modes?, if_pos]
  · simp [entries?, settled_of_nodup hkeys]
  · simp [isReadable, depth, hplain, deepestValue]

theorem eq_table_of_modes? {v : Value} (hkeys : hasDistinctKeys v = true) (h : modes? v = some es) :
    v = .table es := by
  rw [modes?] at h
  split_ifs at h
  obtain ⟨es', hes, hsettled⟩ := Option.map_eq_some_iff.mp h
  rw [entries?_eq_some_iff] at hes
  subst hes
  rw [← hsettled, settled_of_nodup (hasDistinctKeys_table_iff.mp hkeys).1]

section Distinct

variable (hkeys : hasDistinctKeys (.table entries) = true)
include hkeys

theorem distinct_tableUnder (key : String) :
    ((tableUnder key entries).map Prod.fst).Nodup ∧
      ∀ e ∈ tableUnder key entries, hasDistinctKeys e.2 = true := by
  rw [← hasDistinctKeys_table_iff, tableUnder]
  cases hv : entries.lookup key with
  | none => rfl
  | some v =>
    have hdistinct := (hasDistinctKeys_table_iff.mp hkeys).2 _ (mem_of_lookup hv)
    cases v with
    | table es => exact hdistinct
    | _ => rfl

theorem orElse_table?_eq_some_iff {α : Type} {read : Value → Option α} {rs : List (String × α)}
    (name : String) :
    Value.orElse [] (table? read) (entries.lookup name) = some rs ↔
      (∀ v, (name, v) ∈ entries → ∃ es, v = .table es ∧ ∀ e ∈ es, ∃ a, read e.2 = some a) ∧
        readEntries (fun _ => read) (tableUnder name entries) = rs := by
  obtain ⟨hnodup, hvalues⟩ := hasDistinctKeys_table_iff.mp hkeys
  simp only [← lookup_eq_some_iff_mem hnodup, tableUnder]
  cases hv : entries.lookup name with
  | none => simp [Value.orElse, readEntries]
  | some v =>
    cases v with
    | table es =>
      have hes := (hasDistinctKeys_table_iff.mp (hvalues _ (mem_of_lookup hv))).1
      simp [Value.orElse, table?_eq_some_iff hes, entries?]
    | _ => simp [Value.orElse, table?, entries?]

theorem Outline.ofValue?_eq_some_iff {o : Outline} : ofValue? (.table entries) = some o ↔
      ((∀ v, ("nodes", v) ∈ entries →
          ∃ es, v = .table es ∧ ∀ e ∈ es, ∃ ms, modes? e.2 = some ms) ∧
        readEntries (fun _ => modes?) (tableUnder "nodes" entries) = o.nodes) ∧
      (∀ v, ("attributes", v) ∈ entries →
          ∃ es, v = .table es ∧ ∀ e ∈ es, ∃ names, Value.listOf? Value.text? e.2 = some names) ∧
        readEntries (fun _ => Value.listOf? Value.text?) (tableUnder "attributes" entries) =
          o.attributes := by
  have hnodup := (hasDistinctKeys_table_iff.mp hkeys).1
  rw [← orElse_table?_eq_some_iff hkeys, ← orElse_table?_eq_some_iff hkeys]
  simp only [ofValue?, Value.openFields?, List.mapM_cons, List.mapM_nil, sole?_of_nodup hnodup,
    Option.bind_eq_bind, Option.bind_some, Option.pure_def, Option.bind_eq_some_iff,
    Option.some.injEq]
  constructor
  · rintro ⟨nodes, hnodes, attributes, hattributes, rfl⟩
    exact ⟨hnodes, hattributes⟩
  · rintro ⟨hnodes, hattributes⟩
    exact ⟨_, hnodes, _, hattributes, rfl⟩

theorem nodup_nodes {o : Outline} (h : Outline.ofValue? (.table entries) = some o) :
    (o.nodes.map Prod.fst).Nodup := by
  obtain ⟨⟨-, hread⟩, -⟩ := (Outline.ofValue?_eq_some_iff hkeys).mp h
  exact hread ▸ nodup_readEntries (distinct_tableUnder hkeys "nodes").1

/-- The modes that are read for a ruleset are those that the document has. -/
theorem lookup_nodes {o : Outline} (h : Outline.ofValue? (.table entries) = some o)
    (ruleset : String) : (o.nodes.lookup ruleset).getD [] = modesOf entries ruleset := by
  obtain ⟨⟨hnodes, hread⟩, -⟩ := (Outline.ofValue?_eq_some_iff hkeys).mp h
  obtain ⟨hnodup, hvalues⟩ := distinct_tableUnder hkeys "nodes"
  have hmodes : modesOf entries ruleset =
      (((tableUnder "nodes" entries).lookup ruleset).bind entries?).getD [] := rfl
  rw [← hread, lookup_readEntries hnodup, hmodes]
  cases hv : (tableUnder "nodes" entries).lookup ruleset with
  | none => rfl
  | some v =>
    have hmem := mem_of_lookup hv
    obtain ⟨ms, hms⟩ := forall_mem_tableUnder hnodes (hasDistinctKeys_table_iff.mp hkeys).1 _ hmem
    rw [Option.bind_some, Option.bind_some, hms,
      entries?_eq_some_iff.mpr (eq_table_of_modes? (hvalues _ hmem) hms)]

theorem exists_outline_of_acceptable (h : Acceptable entries) :
    ∃ o, Outline.ofValue? (.table entries) = some o := by
  obtain ⟨hnodup, hvalues⟩ := hasDistinctKeys_table_iff.mp hkeys
  refine ⟨⟨_, _⟩, (Outline.ofValue?_eq_some_iff hkeys).mpr
    ⟨⟨fun v hv => ?_, rfl⟩, fun v hv => ?_, rfl⟩⟩
  · -- the modes of an acceptable ruleset are texts, so its table can be read
    obtain ⟨es, rfl, hes⟩ := h.nodes v hv
    obtain ⟨hnodupEs, hvaluesEs⟩ := hasDistinctKeys_table_iff.mp (hvalues _ hv)
    refine ⟨es, rfl, fun e he => ?_⟩
    obtain ⟨ms, hms⟩ := hes e he
    have hmem : (e.1, Value.table ms) ∈ es := hms ▸ he
    have hmodes : modesOf entries e.1 = ms := by
      rw [modesOf, tableUnder_eq hnodup hv, tableUnder_eq hnodupEs hmem]
    have hdistinct := hvaluesEs e he
    rw [hms] at hdistinct ⊢
    refine ⟨ms, modes?_table (hasDistinctKeys_table_iff.mp hdistinct).1 fun m hm => ?_⟩
    obtain ⟨symbol, -, hsymbol⟩ := h.mode e.1 m.1 m.2 (hmodes ▸ hm)
    exact ⟨symbol, hsymbol⟩
  · simpa only [listOf?_text?_eq_some_iff] using h.attributes v hv

end Distinct

/-! ## The grammar of a document -/

theorem ofOutline_eq_ok_iff {o : Outline} {g : Grammar} :
    ofOutline document o = .ok g ↔ ∃ children,
      List.Forall₂ (fun e c => ∃ found, childRulesOf document e.1 e.2 = .ok found ∧
        found.map (e.1, ·) = c) o.nodes children ∧
      ⟨children.filterMap id, readEntries (fun _ => attributeRulesOf?) o.attributes⟩ = g := by
  simp only [ofOutline, bind_eq_ok_iff, mapM_eq_ok_iff, pure, Except.pure, Except.ok.injEq]
  rfl

/-- The rules that the grammar has for a ruleset are those that its entries make. -/
theorem childRulesOf_of_ofOutline {o : Outline} {g : Grammar} (h : ofOutline document o = .ok g)
    (hkeys : (o.nodes.map Prod.fst).Nodup) (ruleset : String) :
    childRulesOf document ruleset ((o.nodes.lookup ruleset).getD []) = .ok (g.childRules? ruleset) := by
  obtain ⟨children, hchildren, rfl⟩ := ofOutline_eq_ok_iff.mp h
  have hread : children.filterMap id =
      readEntries (fun ruleset es => (childRulesOf document ruleset es).toOption.join) o.nodes := by
    refine filterMap_eq_of_forall₂ hchildren ?_
    rintro e c ⟨found, hfound, rfl⟩
    dsimp only
    rw [hfound]
    rfl
  rw [childRules?, hread, lookup_readEntries hkeys]
  cases hes : o.nodes.lookup ruleset with
  | none => rfl
  | some es =>
    obtain ⟨c, found, hfound, -⟩ := exists_forall₂_iff.mp ⟨children, hchildren⟩ _ (mem_of_lookup hes)
    simp only [Option.getD_some, Option.bind_some, hfound]
    rfl

variable {source : String}

theorem parse_eq_ok_iff {g : Grammar} (hsource : Json.parse? source = some (.table entries)) :
    parse document source = .ok g ↔
      ∃ o, Outline.ofValue? (.table entries) = some o ∧ ofOutline document o = .ok g := by
  rw [parse, hsource, Option.bind_some]
  cases Outline.ofValue? (.table entries) <;> simp

theorem attributeRulesOf?_eq_none_iff {names : List String} :
    attributeRulesOf? names = none ↔ names = [] := by
  cases names <;> simp [attributeRulesOf?]

theorem exists_not_mem (names : List String) : ∃ name, name ∉ names := by
  -- a text longer than all of them together
  refine ⟨String.ofList ('x' :: (names.map String.toList).flatten), fun hmem => ?_⟩
  have hlength := (List.sublist_flatten_of_mem (List.mem_map_of_mem (f := String.toList) hmem)).length_le
  rw [String.toList_ofList, List.length_cons] at hlength
  omega

theorem allows_iff {names : List String} {rules : AttributeRules}
    (h : attributeRulesOf? names = some rules) :
    ((∀ name, rules.allows name = true) ↔ names.head? = some "*") ∧
      (names.head? ≠ some "*" → ∀ name, rules.allows name = true ↔ name ∈ names) := by
  cases names with
  | nil => contradiction
  | cons first rest =>
    obtain rfl := Option.some.inj h
    by_cases hfirst : first = "*"
    · simp [hfirst, wildcard, AttributeRules.allows]
    · obtain ⟨name, hname⟩ := exists_not_mem (first :: rest)
      have hrules : (if first = wildcard then AttributeRules.any else .allowed (first :: rest)) =
          .allowed (first :: rest) := if_neg hfirst
      have hlisted : ∀ name, (AttributeRules.allowed (first :: rest)).allows name = true ↔
          name ∈ first :: rest := fun name => List.contains_iff_mem
      rw [hrules]
      exact ⟨iff_of_false (fun hall => hname ((hlisted name).mp (hall name))) (by simpa using hfirst),
        fun _ => hlisted⟩

section Parse

variable (hsource : Json.parse? source = some (.table entries))
  (hkeys : hasDistinctKeys (.table entries) = true)
include hsource hkeys

/-- The grammar has the rules that the entries of a ruleset make, and the attributes listed for it. -/
theorem rules_of_parse {g : Grammar} (h : parse document source = .ok g) (ruleset : String) :
    childRulesOf document ruleset (modesOf entries ruleset) = .ok (g.childRules? ruleset) ∧
      attributeRulesOf? (namesOf entries ruleset) = g.attributeRules? ruleset := by
  obtain ⟨o, ho, hg⟩ := (parse_eq_ok_iff hsource).mp h
  obtain ⟨-, -, hattributes⟩ := (Outline.ofValue?_eq_some_iff hkeys).mp ho
  have hnodup := (distinct_tableUnder hkeys "attributes").1
  constructor
  · rw [← lookup_nodes hkeys ho]
    exact childRulesOf_of_ofOutline hg (nodup_nodes hkeys ho) ruleset
  · obtain ⟨_, -, rfl⟩ := ofOutline_eq_ok_iff.mp hg
    rw [attributeRules?, lookup_readEntries (hattributes ▸ nodup_readEntries hnodup), ← hattributes,
      lookup_readEntries hnodup, namesOf]
    cases ((tableUnder "attributes" entries).lookup ruleset).bind (Value.listOf? Value.text?) <;> rfl

theorem says_of_parse {g : Grammar} (h : parse document source = .ok g) : Says entries g := by
  have hruled := fun ruleset => ruled_of_childRulesOf (rules_of_parse hsource hkeys h ruleset).1
  have hnames := fun ruleset => (rules_of_parse hsource hkeys h ruleset).2
  exact {
    absent := fun ruleset => (hruled ruleset).eq_none_iff
    wildcard := fun ruleset => (hruled ruleset).eq_wildcard_iff
    declared := fun ruleset rules hrules => (hrules ▸ hruled ruleset).map_written
    child := fun ruleset hstar _ _ => resolve?_eq_some_iff_lastCovering (hruled ruleset) hstar
    noChild := fun ruleset hstar _ => resolve?_eq_none_iff_covers (hruled ruleset) hstar
    silent := fun ruleset => by rw [← hnames, attributeRulesOf?_eq_none_iff]
    anyName := fun ruleset _ hrules => (allows_iff ((hnames ruleset).trans hrules)).1
    listed := fun ruleset _ hrules => (allows_iff ((hnames ruleset).trans hrules)).2 }

theorem acceptable_of_parse {g : Grammar} (h : parse document source = .ok g) :
    Acceptable entries := by
  have hdeclares : ∀ ruleset, ∀ e ∈ modesOf entries ruleset, ∃ rule, Declares e rule := by
    intro ruleset
    obtain ⟨rules, hrules, -⟩ := childRulesOf_eq_ok_iff.mp (rules_of_parse hsource hkeys h ruleset).1
    exact exists_forall₂_iff.mp ⟨rules, hrules⟩
  obtain ⟨o, ho, -⟩ := (parse_eq_ok_iff hsource).mp h
  obtain ⟨⟨hnodes, -⟩, hattributes, -⟩ := (Outline.ofValue?_eq_some_iff hkeys).mp ho
  refine ⟨fun v hv => ?_, fun v hv => ?_, fun ruleset key mode hmem => ?_,
    fun ruleset key mode hmem => ?_⟩
  · obtain ⟨es, rfl, hes⟩ := hnodes v hv
    have hvalues := (hasDistinctKeys_table_iff.mp ((hasDistinctKeys_table_iff.mp hkeys).2 _ hv)).2
    exact ⟨es, rfl, fun e he => (hes e he).imp fun ms => eq_table_of_modes? (hvalues e he)⟩
  · simpa only [listOf?_text?_eq_some_iff] using hattributes v hv
  · exact (exists_declares_iff.mp (hdeclares ruleset _ hmem)).1
  · exact (exists_declares_iff.mp (hdeclares ruleset _ hmem)).2

theorem exists_parse_of_acceptable (h : Acceptable entries) :
    ∃ g, parse document source = .ok g := by
  obtain ⟨o, ho⟩ := exists_outline_of_acceptable hkeys h
  have hnodup := nodup_nodes hkeys ho
  have hread : ∀ e ∈ o.nodes, ∃ c found, childRulesOf document e.1 e.2 = .ok found ∧
      found.map (e.1, ·) = c := by
    intro e he
    have hmodes : e.2 = modesOf entries e.1 := by
      rw [← lookup_nodes hkeys ho, (lookup_eq_some_iff_mem hnodup).mpr he, Option.getD_some]
    have hdeclares : ∀ m ∈ e.2, ∃ rule, Declares m rule := fun m hm =>
      exists_declares_iff.mpr ⟨h.mode e.1 _ _ (hmodes ▸ hm), h.key e.1 _ _ (hmodes ▸ hm)⟩
    obtain ⟨rules, hrules⟩ := exists_forall₂_iff.mpr hdeclares
    exact ⟨_, _, childRulesOf_eq_ok_iff.mpr ⟨rules, hrules, rfl⟩, rfl⟩
  obtain ⟨children, hchildren⟩ := exists_forall₂_iff.mpr hread
  exact ⟨_, (parse_eq_ok_iff hsource).mpr
    ⟨o, ho, ofOutline_eq_ok_iff.mpr ⟨children, hchildren, rfl⟩⟩⟩

end Parse

/-- Documents and their grammars. A document that is an object without duplicate keys is accepted
exactly if its parts are as they should be, and then the grammar says what the document says. -/
theorem parse_document (document : String) {source : String} {entries : List (String × Value)}
    (hsource : Json.parse? source = some (.table entries))
    (hkeys : hasDistinctKeys (.table entries) = true) :
    ((∃ g, parse document source = .ok g) ↔ Acceptable entries) ∧
      ∀ g, parse document source = .ok g → Says entries g :=
  ⟨⟨fun ⟨_, hg⟩ => acceptable_of_parse hsource hkeys hg, exists_parse_of_acceptable hsource hkeys⟩,
    fun _ => says_of_parse hsource hkeys⟩

/-- A document with two keys for one element, and with a star for the attributes of a ruleset. -/
def sharedElement : String :=
  "\x7b\"nodes\": \x7b\"extension\": \x7b\"a:file\": \"!\", \"b:file\": \"?\"\x7d\x7d, " ++
    "\"attributes\": \x7b\"field\": [\"*\"]\x7d\x7d"

def sharedElementEntries : List (String × Value) :=
  [("nodes", .table [("extension", .table [("a:file", .text "!"), ("b:file", .text "?")])]),
    ("attributes", .table [("field", .list [.text "*"])])]

theorem parse_document_shared_element :
    Json.parse? sharedElement = some (.table sharedElementEntries) ∧
      hasDistinctKeys (.table sharedElementEntries) = true ∧ Acceptable sharedElementEntries ∧
      ∃ g, parse "shared" sharedElement = .ok g ∧
        g.resolve? "extension" "file" = some "b:file" ∧
        ∀ rules, g.attributeRules? "field" = some rules → ∀ name, rules.allows name = true := by
  have hsource : Json.parse? sharedElement = some (.table sharedElementEntries) := by cbv
  have hkeys : hasDistinctKeys (.table sharedElementEntries) = true := by decide
  obtain ⟨haccept, hanswers⟩ := parse_document "shared" hsource hkeys
  obtain ⟨g, hg⟩ : ∃ g, parse "shared" sharedElement = .ok g := by
    rw [parse, hsource]
    exact ⟨_, rfl⟩
  have hcut : Cut ("b" ++ ":" ++ "file") (some "b") "file" := .inContext (by decide)
  refine ⟨hsource, hkeys, haccept.mp ⟨g, hg⟩, g, hg, ?_, fun rules hrules => ?_⟩
  · exact ((hanswers g hg).child "extension" (by decide) "file" "b:file").mpr
      ⟨["a:file"], [], rfl, ⟨some "b", hcut⟩, by simp⟩
  · exact ((hanswers g hg).anyName "field" rules hrules).mpr rfl

end ExtensionLint.Grammar
