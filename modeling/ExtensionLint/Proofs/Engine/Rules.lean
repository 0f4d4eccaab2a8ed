import Mathlib
import ExtensionLint.Proofs.Engine.Pool
import ExtensionLint.Proofs.FirstPlaces
import ExtensionLint.Proofs.Script.Reading
import ExtensionLint.Proofs.Text.Utf8

/-!
Rules that run together. A file's report is put together from what each rule for it finds by itself,
in the order in which the rules were first asked for.
-/
namespace ExtensionLint

/-! ## One rule after the other -/

namespace Engine

/-- A file is skipped exactly if no rule looks at it; any other one is checked or has failed. -/
theorem isSkipped_checkFile {e : Engine} {fs : FileSystem} {path : String} :
    (e.checkFile fs path).status.isSkipped ↔ e.rules.applicable path = [] := by
  by_cases hrules : e.rules.applicable path = []
  · simp [checkFile, hrules, FileStatus.isSkipped]
  · refine iff_of_false ?_ hrules
    rw [checkFile, if_neg (by simpa using hrules)]
    cases fs.read path with
    | error fault => exact Bool.false_ne_true
    | ok bytes =>
        simp only [reportOn]
        split
        · exact Bool.false_ne_true
        · split <;> exact Bool.false_ne_true

end Engine

/-! ## Rules of the settings -/

namespace RuleId

def looksAt (id : RuleId) (path : String) : Bool := hasExtension id.extension path

end RuleId

namespace RuleSettings

variable (s : RuleSettings) (load : Grammar.Loader) (limit : Nat) (fs : FileSystem) (path : String)

/-- The report on a file under the settings. -/
def report : FileReport := Engine.checkFile ⟨.ofSettings s load, limit⟩ fs path

/-- The enabled rules that look at a file, each once. -/
def idsFor : List RuleId := (firstPlaces s.enabled).filter (·.looksAt path)

variable {s load limit fs path}

theorem mem_idsFor {id : RuleId} : id ∈ s.idsFor path ↔ id ∈ s.enabled ∧ id.looksAt path := by
  simp [idsFor, mem_firstPlaces]

theorem applicable_ofSettings :
    (RuleSet.ofSettings s load).applicable path = (s.idsFor path).map (RuleSet.build s load) := by
  have happlies (id : RuleId) : (RuleSet.build s load id).appliesTo path = id.looksAt path := by
    cases id <;> rfl
  simp [RuleSet.applicable, RuleSet.ofSettings, idsFor, List.filter_map, Function.comp_def, happlies]

theorem idsFor_eq_nil : s.idsFor path = [] ↔ ∀ id ∈ s.enabled, ¬ id.looksAt path := by
  simp only [List.eq_nil_iff_forall_not_mem, mem_idsFor, not_and]

end RuleSettings
end ExtensionLint
