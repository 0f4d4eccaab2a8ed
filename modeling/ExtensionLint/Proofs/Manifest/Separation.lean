import ExtensionLint.Manifest.Grammar.Bundled
import ExtensionLint.Proofs.Manifest.Bucket
import ExtensionLint.Proofs.Manifest.Verdict
import ExtensionLint.Rule

/-!
# What depends on the grammar

The entries for a manifest come in three parts: trouble with its grammar, what is found without one, and
what the grammar finds. The grammars that there are do not influence the part in the middle, and nothing
else depends on them (`check_separates`).
-/

namespace ExtensionLint.Manifest

open Markup

variable {load : Grammar.Loader} {h : Hooks} {path : String} {source : List Char} {root : Element}
  {type : ExtensionType} {entry : Entry}

/-! ## Files that are asked a grammar for -/

/-- The type of extension that a file is the manifest of, if it is one. -/
def manifestType? (source : List Char) : Option ExtensionType :=
  (document? source).bind fun root =>
    if rootNames.contains root.name then ExtensionType.ofLabel? (declaredType root) else none

theorem check_of_manifestType? (h : Hooks) (path : String)
    (htype : manifestType? source = some type) :
    ∃ root, ∀ load, check load h path source = typedEntries h path type (load type) root := by
  obtain ⟨root, hroot, hname⟩ := Option.bind_eq_some_iff.mp htype
  split at hname
  next hcontains =>
    have hvalue : ExtensionType.ofLabel? ((root.attr? "type").getD "") = some type := hname
    refine ⟨root, fun load => ?_⟩
    simp only [check, hroot, rootEntries, hcontains, hvalue, if_true]
  next => cases hname

/-- Other files have no entries, or the one that says that their type is unknown. -/
theorem check_of_not_manifestType? (h : Hooks) (path : String) (htype : manifestType? source = none) :
    ∃ ds : List Diagnostic, ∀ load, check load h path source = ds.map (·.entry path) := by
  unfold manifestType? at htype
  cases hroot : document? source with
  | none => exact ⟨[], fun load => by simp only [check, hroot, List.map_nil]⟩
  | some root =>
      rw [hroot, Option.bind_some] at htype
      split at htype
      next hcontains =>
        have hvalue : ExtensionType.ofLabel? ((root.attr? "type").getD "") = none := htype
        refine ⟨[.error (.unknownType (declaredType root))], fun load => ?_⟩
        simp only [check, hroot, rootEntries, hcontains, hvalue, if_true]
        rfl
      next hcontains =>
        refine ⟨[], fun load => ?_⟩
        simp only [check, hroot, rootEntries, hcontains, List.map_nil]
        rfl

/-! ## The place of entries -/

theorem file_of_mem_map_entry {ds : List Diagnostic} (hentry : entry ∈ ds.map (·.entry path)) :
    entry.file = path := by
  obtain ⟨d, _, rfl⟩ := List.mem_map.mp hentry
  rfl

theorem file_of_mem_typedEntries {loaded : Except GrammarFault Grammar.Loaded}
    (hentry : entry ∈ typedEntries h path type loaded root) : entry.file = path := by
  simp only [typedEntries, List.mem_append] at hentry
  rcases hentry with (hentry | hentry) | hentry
  · cases loaded with
    | ok _ => cases hentry
    | error fault =>
        rw [List.mem_singleton.mp hentry]
        rfl
  · exact file_of_mem_map_entry hentry
  · unfold validationEntries at hentry
    split at hentry
    · exact Bucket.file_of_mem_entries hentry
    · cases hentry

theorem file_of_mem_check (hentry : entry ∈ check load h path source) : entry.file = path := by
  cases htype : manifestType? source with
  | some type =>
      obtain ⟨root, hcheck⟩ := check_of_manifestType? h path htype
      exact file_of_mem_typedEntries (hcheck load ▸ hentry)
  | none =>
      obtain ⟨ds, hcheck⟩ := check_of_not_manifestType? h path htype
      exact file_of_mem_map_entry (hcheck load ▸ hentry)

/-! ## The three parts -/

theorem typedEntries_none (h : Hooks) (path : String) (type : ExtensionType) (root : Element) :
    typedEntries h path type (.ok none) root = (topLevelFindings type root).map (·.entry path) :=
  List.append_nil _

theorem typedEntries_error (fault : GrammarFault) :
    typedEntries h path type (.error fault) root =
      (Diagnostic.error (.grammarUnavailable fault.message)).entry path ::
        typedEntries h path type (.ok none) root :=
  rfl

theorem typedEntries_some (g : Grammar) :
    typedEntries h path type (.ok (some g)) root =
      typedEntries h path type (.ok none) root ++ (validateDocument g h root).entries path := by
  rw [typedEntries_none]
  rfl

/-- Whichever grammars there are, the entries for a file are about it. If it is a manifest of a known
type, the entries that it has without a grammar for that type stay as they are: a load that fails puts
one error in front of them, and a grammar puts at most one entry for each severity behind them, the
gravest first. The entries for any other file do not depend on grammars. -/
theorem check_separates (h : Hooks) (path : String) (source : List Char) :
    (∀ load, ∀ entry ∈ check load h path source, entry.file = path) ∧
    match manifestType? source with
    | some type =>
      ∀ load bare : Grammar.Loader, bare type = .ok none →
        match load type with
        | .error fault =>
          check load h path source =
            (Diagnostic.error (.grammarUnavailable fault.message)).entry path ::
              check bare h path source
        | .ok none => check load h path source = check bare h path source
        | .ok (some _) =>
          ∃ found, check load h path source = check bare h path source ++ found ∧
            (found.map (·.severity)).Sublist [.error, .warning, .notice]
    | none => ∀ load load', check load h path source = check load' h path source := by
  refine ⟨fun load entry => file_of_mem_check, ?_⟩
  split
  next type htype =>
    intro load bare hbare
    obtain ⟨root, hcheck⟩ := check_of_manifestType? h path htype
    rw [hcheck load, hcheck bare, hbare]
    split
    next fault hload => rw [hload, typedEntries_error]
    next hload => rw [hload]
    next g hload =>
      refine ⟨(validateDocument g h root).entries path, ?_, Bucket.severities_entries _ _⟩
      rw [hload, typedEntries_some]
  next htype =>
    intro load load'
    obtain ⟨ds, hcheck⟩ := check_of_not_manifestType? h path htype
    rw [hcheck load, hcheck load']

theorem check_separates_unreadable_grammar :
    let source := "<extension type='library'/>".toList
    let bare : Grammar.Loader := fun _ => .ok none
    let unreadable : Grammar.Loader := fun type => .error (.unreadable type.grammarFile "denied")
    let bundled : Grammar.Loader := fun type => .ok (some (Grammar.bundled type))
    manifestType? source = some .library ∧
    check unreadable defaultHooks "l.xml" source =
      (Diagnostic.error (.grammarUnavailable
        "Failed to read grammar dtd_library.json: denied")).entry "l.xml" ::
        check bare defaultHooks "l.xml" source ∧
    ∃ found, check bundled defaultHooks "l.xml" source =
        check bare defaultHooks "l.xml" source ++ found ∧
      (found.map (·.severity)).Sublist [.error, .warning, .notice] := by
  intro source bare unreadable bundled
  have htype : manifestType? source = some .library := by decide
  obtain ⟨-, hparts⟩ := check_separates defaultHooks "l.xml" source
  rw [htype] at hparts
  exact ⟨htype, hparts unreadable bare rfl, hparts bundled bare rfl⟩

end ExtensionLint.Manifest
