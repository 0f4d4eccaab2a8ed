import Mathlib
import ExtensionLint.Proofs.FileSystem
import ExtensionLint.Proofs.Settings.Layer
import ExtensionLint.Proofs.Settings.Validity

/-!
The settings of a run are those of three layers above the defaults: the command line, the environment
and one settings file. They are found if all that is given can be read and the outcome is valid.
-/
namespace ExtensionLint

/-! ## The settings file -/

/-- The settings file: the one that the command line names, or else the first that exists. -/
def Settings.file? (fs : FileSystem) (userDirectory : Option String) (a : Arguments) :
    Option String :=
  match a.config with
  | some path => some path
  | none => (candidates userDirectory a).find? fs.exists?

/-- What the settings file gives: nothing without such a file. -/
def Layer.ofSettingsFile? (fs : FileSystem) (userDirectory : Option String) (a : Arguments) :
    Option Layer :=
  match Settings.file? fs userDirectory a with
  | some path => ofFile? fs path
  | none => some {}

/-! ## What the environment does not say -/

namespace Layer

def SaysNothingOfFiles (l : Layer) : Prop :=
  l.included = none ∧ l.excluded = none ∧ l.maxDepth = none

theorem SaysNothingOfFiles.above {upper lower : Layer} (hu : upper.SaysNothingOfFiles)
    (hl : lower.SaysNothingOfFiles) : (upper.above lower).SaysNothingOfFiles := by
  simp [SaysNothingOfFiles, Layer.above, hu.1, hu.2.1, hu.2.2, hl.1, hl.2.1, hl.2.2]

end Layer

namespace Settings

variable {fs : FileSystem} {userDirectory : Option String} {env : Environment} {a : Arguments}

theorem loadFirst_eq (directories : List String) :
    loadFirst fs directories =
      match (directories.flatMap fun d => fileNames.map (Path.join d)).find? fs.exists? with
      | some path => (load fs path).map some
      | none => .ok none := by
  induction directories with
  | nil => rfl
  | cons d ds ih =>
      rw [List.flatMap_cons, List.find?_append, loadFirst, loadFrom, fileIn?]
      -- the first directory that has one of the files settles it, even if that file cannot be read
      cases (fileNames.map (Path.join d)).find? fs.exists? with
      | none => exact ih
      | some path =>
          simp only [Option.some_or]
          cases load fs path <;> rfl

/-- No file is loaded where the settings file gives nothing by not being there. -/
theorem toOption_loadFor :
    (loadFor fs userDirectory a).toOption =
      match file? fs userDirectory a with
      | some path => (Layer.ofFile? fs path).map fun l => some l.settings
      | none => some none := by
  have hload (path : String) : ((load fs path).map some).toOption =
      (Layer.ofFile? fs path).map fun l => some l.settings := by
    have h := congrArg (Option.map some) (Layer.toOption_load fs path)
    rw [Option.map_map] at h
    exact .trans (by cases load fs path <;> rfl) h
  unfold loadFor file? candidates
  cases a.config with
  | some path => exact hload path
  | none =>
      simp only [loadFirst_eq]
      cases List.find? fs.exists? _ with
      | none => rfl
      | some path => exact hload path

theorem orBelow_nil {α : Type} (items : List α) : orBelow [] items = items := by
  cases items <;> rfl

theorem merge_default (s : Settings) : merge {} s = s := by
  simp [merge, mergeScan, orBelow_nil]

/-- The settings from those of a file, or from the defaults where there is none. -/
def finish (env : Environment) (a : Arguments) (base : Settings) : Except SettingsFault Settings := do
  let s := (← withEnvironment env base).withArguments a
  s.validate
  return s

theorem toOption_finish (file : Layer) :
    (finish env a file.settings).toOption = do
      let environment ← Layer.ofEnvironment? env
      let s := ((Layer.ofArguments a).above (environment.above file)).settings
      s.validate.toOption
      return s := by
  simp only [finish, Layer.toOption_bind, Layer.toOption_withEnvironment]
  cases Layer.ofEnvironment? env with
  | none => rfl
  | some environment =>
      have hs : ((environment.on file.settings).withArguments a) =
          ((Layer.ofArguments a).above (environment.above file)).settings := by
        rw [← Layer.on_ofArguments, Layer.settings, Layer.settings, Layer.on_on environment,
          Layer.on_on]
      simp only [Option.map_some, Option.bind_eq_bind, Option.bind_some, hs]
      rfl

theorem toOption_resolve :
    (resolve fs userDirectory env a).toOption =
      Layer.ofSettingsFile? fs userDirectory a >>= fun file =>
        (finish env a file.settings).toOption := by
  -- merging above the defaults leaves the settings of a file as they are
  have hresolve : resolve fs userDirectory env a =
      loadFor fs userDirectory a >>= fun file => finish env a (file.elim {} (merge {})) := by
    simp only [resolve, finish]
    congr 1
    funext file
    cases file <;> rfl
  rw [hresolve, Layer.toOption_bind, toOption_loadFor, Layer.ofSettingsFile?]
  cases file? fs userDirectory a with
  | none => rfl
  | some path =>
      simp only
      cases Layer.ofFile? fs path with
      | none => rfl
      | some l => simp [merge_default]

theorem resolve_eq_ok_iff {s : Settings} :
    resolve fs userDirectory env a = .ok s ↔
      ∃ file environment, Layer.ofSettingsFile? fs userDirectory a = some file ∧
        Layer.ofEnvironment? env = some environment ∧
        s = ((Layer.ofArguments a).above (environment.above file)).settings ∧ s.Valid := by
  have hok {ε α : Type} {e : Except ε α} {a : α} : e = .ok a ↔ e.toOption = some a := by
    cases e <;> simp [Except.toOption]
  rw [hok, toOption_resolve]
  simp only [toOption_finish, Option.bind_eq_bind, Option.bind_eq_some_iff, Option.pure_def,
    Option.some.injEq, ← hok]
  constructor
  · rintro ⟨file, hfile, environment, henvironment, _, hvalid, rfl⟩
    exact ⟨file, environment, hfile, henvironment, rfl, validate_eq_ok_iff.1 hvalid⟩
  · rintro ⟨file, environment, hfile, henvironment, rfl, hvalid⟩
    exact ⟨file, hfile, environment, henvironment, (), validate_eq_ok_iff.2 hvalid, rfl⟩

end Settings
end ExtensionLint
