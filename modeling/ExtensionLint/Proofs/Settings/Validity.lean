import ExtensionLint.Settings
import ExtensionLint.Proofs.Data.Entries

/-! Which settings are refused, and that each accepted list of rules can be read. -/
namespace ExtensionLint

theorem RuleId.label_injective {a b : RuleId} (h : a.label = b.label) : a = b := by
  cases a <;> cases b <;> first | rfl | exact absurd h (by decide)

theorem RuleId.mem_all (id : RuleId) : id ∈ RuleId.all := by cases id <;> decide

/-- The name as it is compared: trimmed and in small letters. -/
def RuleId.plainName (name : String) : String :=
  String.ofList (Text.lowerAscii (Text.trim name.toList))

theorem RuleId.parse_eq_ok_iff {name : String} {id : RuleId} :
    RuleId.parse name = .ok id ↔ RuleId.plainName name = id.label := by
  simp only [RuleId.parse, RuleId.plainName]
  constructor
  · intro h
    split at h
    · rename_i found hfound
      cases h
      have hlabel := List.find?_some hfound
      exact (of_decide_eq_true hlabel).symm
    · cases h
  · intro h
    split
    · rename_i found hfound
      have hlabel := List.find?_some hfound
      rw [RuleId.label_injective ((of_decide_eq_true hlabel).trans h)]
    · rename_i hnone
      have hne := List.find?_eq_none.1 hnone id id.mem_all
      exact absurd (decide_eq_true h.symm) hne

namespace Settings

/-- What settings a run can be made with. -/
structure Valid (s : Settings) : Prop where
  threads : ∀ n, s.scan.threads = some n → 0 < n ∧ n ≤ mostThreads
  timeout : 0 < s.scan.timeout
  verbosity : ¬ (s.output.verbose ∧ s.output.quiet)
  enabled : s.rules.enabled ≠ []
  known : ∀ name ∈ s.rules.enabled, ∃ id : RuleId, RuleId.plainName name = id.label

theorem threadsFault?_eq_none_iff {n : Nat} :
    threadsFault? n = none ↔ 0 < n ∧ n ≤ mostThreads := by
  unfold threadsFault?
  split
  · simp; omega
  · split <;> simp <;> omega

theorem exists_mapM_iff {α β ε : Type} {f : α → Except ε β} {items : List α} :
    (∃ results, items.mapM f = .ok results) ↔ ∀ a ∈ items, ∃ b, f a = .ok b := by
  simp only [Data.mapM_eq_ok_iff, Data.exists_forall₂_iff]

theorem exists_enabledRules_iff {s : Settings} :
    (∃ ids, s.enabledRules = .ok ids) ↔
      ∀ name ∈ s.rules.enabled, ∃ id : RuleId, RuleId.plainName name = id.label := by
  simp only [← RuleId.parse_eq_ok_iff, ← exists_mapM_iff, enabledRules, Data.mapError_eq_ok_iff]

theorem throw_bind {ε α β : Type} (fault : ε) (rest : α → Except ε β) :
    (throw fault >>= rest) = .error fault := rfl

theorem validate_eq_ok_iff {s : Settings} : s.validate = .ok () ↔ s.Valid := by
  have hthreads : s.scan.threads.bind threadsFault? = none ↔
      ∀ n, s.scan.threads = some n → 0 < n ∧ n ≤ mostThreads := by
    simp [Option.bind_eq_none_iff, threadsFault?_eq_none_iff]
  have hchecks : s.validate = .ok () ↔
      s.scan.threads.bind threadsFault? = none ∧ 0 < s.scan.timeout ∧
        ¬ (s.output.verbose ∧ s.output.quiet) ∧ s.rules.enabled ≠ [] ∧
        ∃ ids, s.enabledRules = .ok ids := by
    simp only [validate]
    cases s.scan.threads.bind threadsFault? with
    | some fault => simp [throw_bind]
    | none =>
        by_cases htimeout : s.scan.timeout = 0
        · simp [htimeout, throw_bind]
        by_cases hverbosity : s.output.verbose ∧ s.output.quiet
        · simp [htimeout, hverbosity, throw_bind]
        by_cases henabled : s.rules.enabled = []
        · simp [htimeout, hverbosity, henabled, throw_bind]
        have hpos : 0 < s.scan.timeout := Nat.pos_of_ne_zero htimeout
        cases s.enabledRules <;>
          simp [htimeout, hpos, hverbosity, henabled, discard, Functor.discard, Functor.mapConst,
            Except.map]
  rw [hchecks, hthreads, exists_enabledRules_iff]
  exact ⟨fun ⟨h₁, h₂, h₃, h₄, h₅⟩ => ⟨h₁, h₂, h₃, h₄, h₅⟩,
    fun h => ⟨h.threads, h.timeout, h.verbosity, h.enabled, h.known⟩⟩

end Settings
end ExtensionLint
