import Mathlib.Logic.Basic
import ExtensionLint.Manifest.Check
import ExtensionLint.Proofs.Manifest.Conformance

/-!
# When a manifest is in error

`Faulty` lists what makes a manifest faulty: its type, the grammar for that type, its client, the items
of a package, or a number of children somewhere. The check of a file reports an error exactly if the file
is a faulty manifest (`exists_error_check_iff`).
-/

namespace ExtensionLint

theorem ExtensionType.ofLabel?_eq_some_iff {s : String} {type : ExtensionType} :
    ofLabel? s = some type ↔ type.label = s := by
  constructor
  · intro h
    simpa using List.find?_some h
  · rintro rfl
    exact ofLabel?_label type

theorem ExtensionType.ofLabel?_eq_none_iff {s : String} :
    ofLabel? s = none ↔ ∀ type : ExtensionType, type.label ≠ s := by
  rw [Option.eq_none_iff_forall_ne_some]
  exact forall_congr' fun type => not_congr ofLabel?_eq_some_iff

end ExtensionLint

namespace ExtensionLint.Manifest

open Markup

/-! ## Faulty manifests -/

/-- The type that an element declares; to declare none is to declare the empty one. -/
def declaredType (e : Element) : String := (e.attr? "type").getD ""

/-- The element names no client, or none that exists. -/
def LacksClient (e : Element) : Prop :=
  ∀ client, e.attr? "client" = some client → client ≠ "site" ∧ client ≠ "administrator"

inductive FaultyItem (item : Element) : Prop
  | group (htype : declaredType item = "plugin") (h : item.attr? "group" = none)
  | client (htype : declaredType item = "module" ∨ declaredType item = "template")
      (h : LacksClient item)
  | unknownType (h : ∀ type : ExtensionType, type.label ≠ declaredType item)
  | nested (htype : declaredType item = "package")

/-- At a stop of the descent, a child that must occur once is missing or repeated, or one that may occur
once is repeated. -/
def Miscounted (g : Grammar) (v : Visit) : Prop :=
  ∃ rules, g.childRules? v.ruleset = some (.declared rules) ∧
    ((∃ rule ∈ rules, rule.mode = .requiredSingle ∧ v.element.count rule.key.element ≠ 1) ∨
      ∃ c ∈ v.element.children, ∃ rule, LastRule rules c.name rule ∧ rule.mode = .optionalSingle ∧
        1 < v.element.count c.name)

/-- What makes a manifest faulty; `load` yields the grammars. -/
inductive Faulty (load : ExtensionType → Except GrammarFault Grammar.Loaded) (root : Element) : Prop
  | unknownType (h : ∀ type : ExtensionType, type.label ≠ declaredType root)
  | grammar {type : ExtensionType} {fault : GrammarFault} (htype : declaredType root = type.label)
      (h : load type = .error fault)
  | client (htype : declaredType root = "module" ∨ declaredType root = "template")
      (h : LacksClient root)
  | item {files item : Element} (htype : declaredType root = "package")
      (hfiles : root.child? "files" = some files) (hitem : item ∈ files.children)
      (hname : item.name = "file") (h : FaultyItem item)
  | count {type : ExtensionType} {g : Grammar} {v : Visit} (htype : declaredType root = type.label)
      (hload : load type = .ok (some g)) (hv : v ∈ visits g rootRuleset root) (h : Miscounted g v)

variable {load : ExtensionType → Except GrammarFault Grammar.Loaded} {path : String} {root : Element}

/-! ## Errors of the single checks -/

/-- Some entry is an error. -/
def HasError (entries : List Entry) : Prop := ∃ entry ∈ entries, entry.severity = .error

theorem hasError_append {entries entries' : List Entry} :
    HasError (entries ++ entries') ↔ HasError entries ∨ HasError entries' := by
  simp only [HasError, List.mem_append, or_and_right, exists_or]

theorem not_hasError_nil : ¬ HasError [] := nofun

theorem hasError_singleton {finding : Finding} :
    HasError [(Diagnostic.error finding).entry path] := ⟨_, List.mem_singleton_self _, rfl⟩

theorem hasError_map_entry {ds : List Diagnostic} :
    HasError (ds.map (·.entry path)) ↔ ∃ d ∈ ds, d.severity = .error := by
  simp only [HasError, List.mem_map]
  constructor
  · rintro ⟨_, ⟨d, hd, rfl⟩, herror⟩
    exact ⟨d, hd, herror⟩
  · rintro ⟨d, hd, herror⟩
    exact ⟨_, ⟨d, hd, rfl⟩, herror⟩

theorem hasError_grammarFaults {loaded : Except GrammarFault Grammar.Loaded} :
    HasError (grammarFaults path loaded) ↔ ∃ fault, loaded = .error fault := by
  cases loaded with
  | ok _ => simp [grammarFaults, not_hasError_nil]
  | error fault => exact iff_of_true hasError_singleton ⟨fault, rfl⟩

theorem hasError_entries {b : Bucket} : HasError (b.entries path) ↔ b.errors ≠ [] := by
  simp only [HasError, Bucket.entries, List.mem_filterMap, Bucket.entryFor?, ne_eq]
  constructor
  · rintro ⟨entry, ⟨severity, _, hentry⟩, herror⟩ hnone
    split at hentry
    · cases hentry
    · rename_i hsome
      cases hentry
      subst herror
      simp [Bucket.ofSeverity, hnone] at hsome
  · intro hsome
    refine ⟨_, ⟨.error, List.mem_cons_self, if_neg ?_⟩, rfl⟩
    simpa [Bucket.ofSeverity] using hsome

theorem not_numbersConform_iff {g : Grammar} {v : Visit} : ¬ NumbersConform g v ↔ Miscounted g v := by
  simp only [NumbersConform, Miscounted, not_forall, not_and_or, Nat.not_le, exists_prop, ne_eq]

/-- The grammar finds an error exactly if some number of children is wrong. -/
theorem hasError_validationEntries {loaded : Except GrammarFault Grammar.Loaded} :
    HasError (validationEntries defaultHooks path root loaded) ↔
      ∃ g, loaded = .ok (some g) ∧ ∃ v ∈ visits g rootRuleset root, Miscounted g v := by
  unfold validationEntries
  split
  · rename_i g
    rw [hasError_entries, errors_validateDocument, ne_eq, List.flatMap_eq_nil_iff]
    simp [numberErrors_eq_nil_iff, not_numbersConform_iff]
  · rename_i hloaded
    refine iff_of_false not_hasError_nil ?_
    rintro ⟨g, hg, _⟩
    exact hloaded g hg

/-! ### Clients and items -/

theorem clientFinding?_severity {e : Element} {d : Diagnostic} (h : clientFinding? e = some d) :
    d.severity = .error := by
  unfold clientFinding? at h
  split at h
  · cases h; rfl
  · split at h <;> cases h
    rfl

theorem exists_clientFinding?_iff {e : Element} :
    (∃ d, clientFinding? e = some d) ↔ LacksClient e := by
  unfold clientFinding? LacksClient
  cases e.attr? "client" with
  | none => simp
  | some client => simp [clients]

theorem packageItemFinding?_severity {item : Element} {d : Diagnostic}
    (h : packageItemFinding? item = some d) : d.severity = .error := by
  unfold packageItemFinding? at h
  dsimp only at h
  split at h
  · cases h; rfl
  · cases h; rfl
  · split at h <;> cases h
    rfl
  · split at h
    · exact clientFinding?_severity h
    · cases h

theorem requiresClient_iff {type : ExtensionType} :
    type.requiresClient = true ↔ type.label = "module" ∨ type.label = "template" := by
  cases type <;> decide

theorem faultyItem_of_finding {item : Element} {d : Diagnostic} (h : packageItemFinding? item = some d) :
    FaultyItem item := by
  unfold packageItemFinding? at h
  dsimp only at h
  split at h
  · rename_i htype
    exact .unknownType (ExtensionType.ofLabel?_eq_none_iff.mp htype)
  · rename_i htype
    exact .nested (ExtensionType.ofLabel?_eq_some_iff.mp htype).symm
  · rename_i htype
    split at h
    · cases h
    · rename_i hgroup
      exact .group (ExtensionType.ofLabel?_eq_some_iff.mp htype).symm (by simpa using hgroup)
  · rename_i type _ _ htype
    split at h
    · rename_i hclient
      have hlabel : type.label = declaredType item := ExtensionType.ofLabel?_eq_some_iff.mp htype
      exact .client (hlabel ▸ requiresClient_iff.mp hclient) (exists_clientFinding?_iff.mp ⟨d, h⟩)
    · cases h

theorem FaultyItem.exists_finding {item : Element} (h : FaultyItem item) :
    ∃ d, packageItemFinding? item = some d := by
  have hvalue : (item.attr? "type").getD "" = declaredType item := rfl
  simp only [packageItemFinding?, hvalue]
  cases h with
  | group htype h => rw [htype, h]; exact ⟨_, rfl⟩
  | client htype h =>
      rcases htype with htype | htype <;> rw [htype] <;> exact exists_clientFinding?_iff.mpr h
  | unknownType h => rw [ExtensionType.ofLabel?_eq_none_iff.mpr h]; exact ⟨_, rfl⟩
  | nested htype => rw [htype]; exact ⟨_, rfl⟩

theorem exists_item_error_iff :
    (∃ d ∈ (packageItems root).filterMap packageItemFinding?, d.severity = .error) ↔
      ∃ files item, root.child? "files" = some files ∧ item ∈ files.children ∧ item.name = "file" ∧
        FaultyItem item := by
  unfold packageItems
  constructor
  · rintro ⟨d, hd, _⟩
    obtain ⟨item, hitem, hfinding⟩ := List.mem_filterMap.mp hd
    split at hitem
    · rename_i files hfiles
      obtain ⟨hmem, hname⟩ := List.mem_filter.mp hitem
      exact ⟨files, item, hfiles, hmem, of_decide_eq_true hname, faultyItem_of_finding hfinding⟩
    · cases hitem
  · rintro ⟨files, item, hfiles, hmem, hname, hfaulty⟩
    obtain ⟨d, hd⟩ := hfaulty.exists_finding
    refine ⟨d, List.mem_filterMap.mpr ⟨item, ?_, hd⟩, packageItemFinding?_severity hd⟩
    simp only [hfiles]
    exact List.mem_filter.mpr ⟨hmem, decide_eq_true hname⟩

/-! ### The root -/

theorem methodFinding?_severity {d : Diagnostic} (h : methodFinding? root = some d) :
    d.severity ≠ .error := by
  unfold methodFinding? at h
  split at h <;> cases h
  exact nofun

theorem exists_method_error (ds : List Diagnostic) :
    (∃ d ∈ (methodFinding? root).toList ++ ds, d.severity = .error) ↔
      ∃ d ∈ ds, d.severity = .error := by
  constructor
  · rintro ⟨d, hd, herror⟩
    rcases List.mem_append.mp hd with hd | hd
    · exact absurd herror (methodFinding?_severity (Option.mem_toList.mp hd))
    · exact ⟨d, hd, herror⟩
  · rintro ⟨d, hd, herror⟩
    exact ⟨d, List.mem_append_right _ hd, herror⟩

theorem exists_topLevel_error_iff {type : ExtensionType} :
    (∃ d ∈ topLevelFindings type root, d.severity = .error) ↔
      type.requiresClient = true ∧ LacksClient root ∨
        type = .package ∧ ∃ files item, root.child? "files" = some files ∧ item ∈ files.children ∧
          item.name = "file" ∧ FaultyItem item := by
  have hclient : (∃ d ∈ (clientFinding? root).toList, d.severity = .error) ↔ LacksClient root := by
    rw [← exists_clientFinding?_iff]
    constructor
    · rintro ⟨d, hd, _⟩
      exact ⟨d, Option.mem_toList.mp hd⟩
    · rintro ⟨d, hd⟩
      exact ⟨d, Option.mem_toList.mpr hd, clientFinding?_severity hd⟩
  unfold topLevelFindings
  rw [exists_method_error]
  split
  · refine exists_item_error_iff.trans ?_
    simp [ExtensionType.requiresClient]
  · rename_i hpackage
    have hother : type ≠ .package := hpackage
    split
    · rename_i hrequires
      simp only [hrequires, hother, hclient, true_and, false_and, or_false]
    · rename_i hrequires
      simp [hrequires, hother]

/-- The entries for a root of a known type hold an error exactly if the root is a faulty manifest. -/
theorem hasError_typedEntries {type : ExtensionType} (htype : type.label = declaredType root) :
    HasError (typedEntries defaultHooks path type (load type) root) ↔ Faulty load root := by
  have hunique {type' : ExtensionType} (htype' : declaredType root = type'.label) : type' = type := by
    have hlabel := ExtensionType.ofLabel?_label type'
    rw [← htype', ← htype, ExtensionType.ofLabel?_label] at hlabel
    exact (Option.some.inj hlabel).symm
  rw [typedEntries, hasError_append, hasError_append, hasError_grammarFaults, hasError_map_entry,
    hasError_validationEntries, exists_topLevel_error_iff, requiresClient_iff, htype]
  constructor
  · rintro ((⟨fault, hfault⟩ | ⟨hclient, hlacks⟩ | ⟨rfl, files, item, hfiles, hitem, hname, hfaulty⟩) |
      ⟨g, hg, v, hv, hmiscounted⟩)
    · exact .grammar htype.symm hfault
    · exact .client hclient hlacks
    · exact .item htype.symm hfiles hitem hname hfaulty
    · exact .count htype.symm hg hv hmiscounted
  · intro h
    cases h with
    | unknownType h => exact absurd htype (h type)
    | grammar htype' hfault =>
        cases hunique htype'
        exact .inl (.inl ⟨_, hfault⟩)
    | client hclient hlacks => exact .inl (.inr (.inl ⟨hclient, hlacks⟩))
    | item htype' hfiles hitem hname hfaulty =>
        have hpackage : ExtensionType.package = type := hunique htype'
        exact .inl (.inr (.inr ⟨hpackage.symm, _, _, hfiles, hitem, hname, hfaulty⟩))
    | count htype' hg hv hmiscounted =>
        cases hunique htype'
        exact .inr ⟨_, hg, _, hv, hmiscounted⟩

theorem hasError_rootEntries :
    HasError (rootEntries load defaultHooks path root) ↔
      (root.name = "extension" ∨ root.name = "install") ∧ Faulty load root := by
  have hroot : rootNames.contains root.name = true ↔ root.name = "extension" ∨ root.name = "install" := by
    simp [rootNames]
  unfold rootEntries
  split
  · rename_i hname
    rw [and_iff_right (hroot.mp hname)]
    dsimp only
    split
    · rename_i htype
      exact iff_of_true hasError_singleton (.unknownType (ExtensionType.ofLabel?_eq_none_iff.mp htype))
    · rename_i type htype
      exact hasError_typedEntries (ExtensionType.ofLabel?_eq_some_iff.mp htype)
  · rename_i hname
    exact iff_of_false not_hasError_nil fun h => hname (hroot.mpr h.1)

/-- The verdict on a file. With the usual hooks, its check reports an error exactly if the file is a
well-formed document, its root is that of a manifest, and the manifest is faulty. -/
theorem exists_error_check_iff (load : ExtensionType → Except GrammarFault Grammar.Loaded)
    (path : String) (source : List Char) :
    (∃ entry ∈ check load defaultHooks path source, entry.severity = .error) ↔
      ∃ root, document? source = some root ∧ (root.name = "extension" ∨ root.name = "install") ∧
        Faulty load root := by
  change HasError (check load defaultHooks path source) ↔ _
  unfold check
  cases document? source with
  | none => simp [not_hasError_nil]
  | some root => simp [hasError_rootEntries]

end ExtensionLint.Manifest
