import ExtensionLint.Proofs.Discovery.Files
import ExtensionLint.Proofs.Engine.Course
import ExtensionLint.Proofs.Text.LetterCase

/-!
# What is discovered and what rules look at

Discovery lowers an extension by the letter case of all scripts, rules compare it up to ASCII case. For the
extensions that they look for this is the same, so all rules together look at exactly the files that
discovery takes (`takes_iff_appliesTo`).
-/

namespace ExtensionLint

open Discovery Text

variable {path : String}

/-! ## Extensions -/

theorem hasExtension_iff {w : String} (hw : PlainWord w.toList) (hlower : lowerAscii w.toList = w.toList) :
    hasExtension w path = true ↔ ∃ e, Path.extension? path = some e ∧ lowered e = w := by
  rw [hasExtension]
  cases Path.extension? path with
  | none => simp
  | some e => simp [eqIgnoringAsciiCase, hlower, lowered_eq_iff hw]

theorem RuleId.looksAt_iff (id : RuleId) :
    id.looksAt path = true ↔ ∃ e, Path.extension? path = some e ∧ lowered e = id.extension := by
  have hplain : PlainWord id.extension.toList ∧
      lowerAscii id.extension.toList = id.extension.toList := by
    cases id <;> decide
  exact hasExtension_iff hplain.1 hplain.2

theorem Discovery.Filter.takesExtension_iff {f : Filter} :
    f.takesExtension path = true ↔ ∃ e, Path.extension? path = some e ∧ lowered e ∈ f.extensions := by
  rw [Filter.takesExtension]
  cases Path.extension? path with
  | none => simp
  | some e => simp

/-- The filter looks for files of the usual kinds. -/
def Discovery.Filter.Usual (f : Filter) : Prop := f.extensions = ({} : Filter).extensions

theorem Discovery.Filter.Usual.mem_extensions {f : Filter} (hf : f.Usual) (w : String) :
    w ∈ f.extensions ↔ ∃ id : RuleId, w = id.extension := by
  rw [hf]
  constructor
  · intro h
    rcases List.mem_cons.mp h with rfl | h
    · exact ⟨.manifest, rfl⟩
    · exact ⟨.guard, List.mem_singleton.mp h⟩
  · rintro ⟨id, rfl⟩
    cases id <;> decide

theorem Discovery.Filter.Usual.takesExtension_iff {f : Filter} (hf : f.Usual) :
    f.takesExtension path = true ↔ ∃ id : RuleId, id.looksAt path = true := by
  simp only [Filter.takesExtension_iff, hf.mem_extensions, RuleId.looksAt_iff]
  constructor
  · rintro ⟨e, he, id, hid⟩
    exact ⟨id, e, he, hid⟩
  · rintro ⟨id, e, he, hid⟩
    exact ⟨e, he, id, hid⟩

/-! ## Rules -/

theorem RuleSet.exists_appliesTo_iff {rules : RuleSet} :
    (∃ r ∈ rules.rules, r.appliesTo path = true) ↔ rules.applicable path ≠ [] := by
  simp [applicable, List.filter_eq_nil_iff]

namespace RuleSettings

variable {s : RuleSettings} {load : Grammar.Loader}

/-- All rules are in force. -/
def Complete (s : RuleSettings) : Prop := ∀ id, id ∈ s.enabled

theorem Complete.exists_appliesTo_iff (hs : s.Complete) :
    (∃ r ∈ (RuleSet.ofSettings s load).rules, r.appliesTo path = true) ↔
      ∃ id : RuleId, id.looksAt path = true := by
  rw [RuleSet.exists_appliesTo_iff, applicable_ofSettings, Ne, List.map_eq_nil_iff, idsFor_eq_nil]
  simp [hs _]

theorem Complete.exists_appliesTo_iff_takesExtension (hs : s.Complete) {f : Filter} (hf : f.Usual) :
    (∃ r ∈ (RuleSet.ofSettings s load).rules, r.appliesTo path = true) ↔ f.takesExtension path = true := by
  rw [hs.exists_appliesTo_iff, hf.takesExtension_iff]

end RuleSettings

/-! ## Files that are found -/

namespace Discovery

variable {fs : FileSystem} {f : Filter} {root : String} {found : List String}

theorem Filter.takesExtension_of_takes (h : f.takes path = true) : f.takesExtension path = true := by
  simp only [Filter.takes, Bool.and_eq_true] at h
  exact h.1.1

theorem Filter.takes_default : ({} : Filter).takes path = ({} : Filter).takesExtension path := by
  simp [Filter.takes]

theorem takes_of_mem_file (h : path ∈ if f.takes root then [root] else []) : f.takes path = true := by
  split at h
  · rename_i htakes
    rwa [List.mem_singleton.mp h]
  · cases h

theorem takes_of_mem_filesBelow {n depth : Nat} (h : path ∈ filesBelow fs f n depth root) :
    f.takes path = true := by
  induction n generalizing depth root with
  | zero => cases h
  | succ n ih =>
      rw [filesBelow] at h
      split at h
      · split at h
        · exact takes_of_mem_file h
        · split at h
          · obtain ⟨entry, _, hentry⟩ := List.mem_flatMap.mp h
            exact ih hentry
          · cases h
        · cases h
      · cases h

theorem takes_of_mem_files (hfound : files fs f root = .ok found) (h : path ∈ found) :
    f.takes path = true := by
  rw [files] at hfound
  split at hfound
  · cases hfound
    exact takes_of_mem_file h
  · cases hfound
    obtain ⟨entry, _, hentry⟩ := List.mem_flatMap.mp (Path.mem_sort.mp h)
    exact takes_of_mem_filesBelow hentry
  · cases hfound
  · cases hfound

/-- Without patterns and a depth, what is found below a directory are the files to which ways lead and that
the filter takes. -/
theorem exists_files_default {entries : List (String × FileNode)} (hfs : fs.root.WellNamed)
    (hroot : fs.node root = .ok (.directory entries)) : ∃ found, files fs {} root = .ok found ∧
      ∀ path, path ∈ found ↔ ∃ names, names ≠ [] ∧ Way fs {} root names ∧ path = below root names ∧
        ({} : Filter).takes path = true := by
  obtain ⟨found, hfound, _, hmem⟩ := exists_files (f := {}) hfs nofun hroot
  refine ⟨found, hfound, fun path => (hmem path).trans (exists_congr fun names => ?_)⟩
  constructor
  · rintro ⟨⟨hne, hway, _, htaken⟩, rfl⟩
    exact ⟨hne, hway, rfl, htaken⟩
  · rintro ⟨hne, hway, rfl, htaken⟩
    exact ⟨⟨hne, hway, nofun, htaken⟩, rfl⟩

end Discovery

namespace RuleSettings

variable {s : RuleSettings} {load : Grammar.Loader} {limit : Nat} {f : Filter} {fs : FileSystem}
  {root : String} {found : List String}

theorem Complete.applicable_ne_nil (hs : s.Complete) (hf : f.Usual) (htakes : f.takes path = true) :
    (RuleSet.ofSettings s load).applicable path ≠ [] := by
  refine RuleSet.exists_appliesTo_iff.mp ?_
  exact (hs.exists_appliesTo_iff_takesExtension hf).mpr (Filter.takesExtension_of_takes htakes)

/-- However long the rules take, no file is skipped that discovery has found. -/
theorem Complete.not_skipped_of_reportsBy? (hs : s.Complete) (hf : f.Usual)
    (hfound : files fs f root = .ok found) {c : Course} {reports : List FileReport}
    (hreports : Engine.reportsBy? ⟨.ofSettings s load, limit⟩ c fs found = some reports) :
    ∀ r ∈ reports, r.status.isSkipped = false := by
  intro r hr
  rw [Engine.reportsBy?_eq_some hreports] at hr
  obtain ⟨path, hpath, rfl⟩ := List.mem_map.mp hr
  rw [Bool.eq_false_iff, Ne, Engine.checkFileBy, Engine.isSkipped_checkFile, Engine.applicable_slowed,
    List.map_eq_nil_iff]
  exact hs.applicable_ne_nil hf (takes_of_mem_files hfound hpath)

theorem Complete.skippedFiles_eq_zero (hs : s.Complete) (hf : f.Usual) {startedAt : Timestamp}
    {results : Results}
    (h : Engine.checkPath ⟨.ofSettings s load, limit⟩ fs f startedAt root = .ok results) :
    results.skippedFiles = 0 := by
  rw [Engine.checkPath] at h
  cases hfound : files fs f root with
  | error fault =>
      rw [hfound] at h
      cases h
  | ok found =>
      rw [hfound] at h
      cases h
      refine (Results.skippedFiles_eq_countP _).trans (List.countP_eq_zero.mpr fun r hr => ?_)
      obtain ⟨path, hpath, rfl⟩ := List.mem_map.mp hr
      rw [Engine.isSkipped_checkFile]
      exact hs.applicable_ne_nil hf (takes_of_mem_files hfound hpath)

/-- Discovery takes exactly the files that some rule looks at, in any letter case and with any characters
in their extensions. So no file that is found is skipped, and none that a rule looks at is left out. -/
theorem takes_iff_appliesTo (hs : s.Complete) (load : Grammar.Loader) (limit : Nat) :
    (∀ path, ({} : Filter).takes path = true ↔
      ∃ r ∈ (RuleSet.ofSettings s load).rules, r.appliesTo path = true) ∧
    (∀ f : Filter, f.Usual → ∀ path, f.takesExtension path = true ↔
      ∃ r ∈ (RuleSet.ofSettings s load).rules, r.appliesTo path = true) ∧
    (∀ f : Filter, f.Usual → ∀ fs startedAt root results,
      Engine.checkPath ⟨.ofSettings s load, limit⟩ fs f startedAt root = .ok results →
      results.skippedFiles = 0) ∧
    (∀ f : Filter, f.Usual → ∀ fs root found, files fs f root = .ok found → ∀ c reports,
      Engine.reportsBy? ⟨.ofSettings s load, limit⟩ c fs found = some reports →
      ∀ r ∈ reports, r.status.isSkipped = false) ∧
    ∀ fs root entries, fs.root.WellNamed → fs.node root = .ok (.directory entries) →
      ∃ found, files fs {} root = .ok found ∧ ∀ path, path ∈ found ↔
        ∃ names, names ≠ [] ∧ Way fs {} root names ∧ path = below root names ∧
          ∃ r ∈ (RuleSet.ofSettings s load).rules, r.appliesTo path = true := by
  have hagree (f : Filter) (hf : f.Usual) (path : String) : f.takesExtension path = true ↔
      ∃ r ∈ (RuleSet.ofSettings s load).rules, r.appliesTo path = true :=
    (hs.exists_appliesTo_iff_takesExtension hf).symm
  have htakes (path : String) : ({} : Filter).takes path = true ↔
      ∃ r ∈ (RuleSet.ofSettings s load).rules, r.appliesTo path = true := by
    rw [Filter.takes_default]
    exact hagree {} rfl path
  refine ⟨htakes, hagree, fun f hf fs startedAt root results h => hs.skippedFiles_eq_zero hf h,
    fun f hf fs root found hfound c reports h => hs.not_skipped_of_reportsBy? hf hfound h, ?_⟩
  intro fs root entries hfs hroot
  obtain ⟨found, hfound, hmem⟩ := exists_files_default hfs hroot
  simp only [htakes] at hmem
  exact ⟨found, hfound, hmem⟩

theorem complete_default : ({} : RuleSettings).Complete := by
  intro id
  cases id <;> decide

/-- The rules of the usual settings, with a file in a directory that discovery goes through. -/
theorem takes_iff_appliesTo_default : ({} : RuleSettings).Complete ∧
    (∃ r ∈ (RuleSet.ofSettings {} fun _ => .ok none).rules, r.appliesTo "/plg.min.PhP" = true) ∧
    linkedTree.root.WellNamed ∧
    ∃ found, files linkedTree {} "/shared" = .ok found ∧ "/shared/a.php" ∈ found := by
  obtain ⟨htakes, _, _, _, hfiles⟩ := takes_iff_appliesTo complete_default (fun _ => .ok none) 1000
  have hshared : linkedTree.node "/shared" = .ok (.directory [("a.php", .file [])]) := by cbv
  obtain ⟨found, hfound, hmem⟩ := hfiles linkedTree "/shared" _ linkedTree_wellNamed hshared
  have hway : Way linkedTree {} "/shared" ["a.php"] := by
    have hfile : Path.join "/shared" "a.php" = "/shared/a.php" := by cbv
    refine way_cons.mpr ⟨by decide, by cbv, leavesOut_eq_false_iff.mp (by cbv), ?_⟩
    rw [hfile]
    exact way_nil.mpr (by cbv)
  refine ⟨complete_default, (htakes _).mp (by cbv), linkedTree_wellNamed, found, hfound, ?_⟩
  exact (hmem _).mpr ⟨["a.php"], List.cons_ne_nil _ _, hway, by cbv, (htakes _).mp (by cbv)⟩

end RuleSettings

end ExtensionLint
