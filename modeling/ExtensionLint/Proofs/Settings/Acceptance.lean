import ExtensionLint.Proofs.Run
import ExtensionLint.Proofs.Settings.Precedence

/-!
# What accepted settings are good for

Settings that are accepted can be used: from there on nothing is refused because of the names of rules, and
the rules that are asked for are in force, each once (`accepted_settings_usable`). What may still go wrong
is outside the check: patterns for files, the source of grammars, and the search for encoding functions.
-/

namespace ExtensionLint

/-- Each of the items once, in the order in which they come up. -/
structure ListsOnce {α : Type} [BEq α] (items chosen : List α) : Prop where
  nodup : chosen.Nodup
  mem_iff : ∀ a, a ∈ chosen ↔ a ∈ items
  ordered : chosen.Pairwise fun a b => items.idxOf a < items.idxOf b

theorem listsOnce_firstPlaces {α : Type} [BEq α] [LawfulBEq α] (items : List α) :
    ListsOnce items (firstPlaces items) where
  nodup := nodup_firstPlaces items
  mem_iff _ := mem_firstPlaces
  ordered := pairwise_firstPlaces items

theorem RuleSet.ids_ofSettings (rs : RuleSettings) (load : Grammar.Loader) :
    (RuleSet.ofSettings rs load).ids = firstPlaces rs.enabled := by
  have hid : ∀ id : RuleId, (build rs load id).id = id := by
    intro id
    cases id <;> rfl
  rw [ids, ofSettings, List.map_map]
  exact (List.map_congr_left fun id _ => hid id).trans (List.map_id _)

namespace Run

variable {w : Surroundings} {rs : RuleSettings} {load : Grammar.Loader}

/-- The encoding functions can be looked for together, if the rule about them is asked for and there are
any. -/
def CanSearch (w : Surroundings) (rs : RuleSettings) : Prop :=
  let names := (Script.Encoding.watched rs.encodings).map String.ofList
  .encoding ∈ rs.enabled → names ≠ [] → w.searchFault? names = none

theorem rulesFor_of_canSearch (h : CanSearch w rs) (load : Grammar.Loader) :
    rulesFor w rs load = .ok (.ofSettings rs load) := by
  simp only [rulesFor]
  split
  next details hfault =>
    split at hfault
    next hsearched =>
      rw [Bool.and_eq_true, List.contains_iff_mem, Bool.not_eq_true',
        List.isEmpty_eq_false_iff] at hsearched
      rw [h hsearched.1 hsearched.2] at hfault
      cases hfault
    next => cases hfault
  next => rfl

theorem ofSettings_eq_error {s : Settings} {path : String} {fault : CheckFault}
    (hsettings : s.ruleSettings = .ok rs) (h : ofSettings w path s = .error fault) :
    filterFor s = .error fault ∨ loaderFor w.files s = .error fault ∨
      ∃ load, rulesFor w rs load = .error fault := by
  rw [ofSettings, hsettings] at h
  simp only [Data.bind_eq_error_iff] at h
  -- one case for each step of the preparation, of which the third and the last cannot fail
  rcases h with hfilter | ⟨filter, -, hload | ⟨load, -, hnone | ⟨found, hfound, hrules | ⟨_, -, hnone⟩⟩⟩⟩
  · exact .inl hfilter
  · exact .inr (.inl hload)
  · cases hnone
  · cases hfound
    exact .inr (.inr ⟨load, hrules⟩)
  · cases hnone

end Run

namespace Settings

variable {s : Settings} {ids : List RuleId}

theorem enabledRules_eq_ok_iff : s.enabledRules = .ok ids ↔
    ids.map RuleId.label = s.rules.enabled.map RuleId.plainName := by
  have hmap : List.Forall₂ (fun name id => RuleId.parse name = .ok id) s.rules.enabled ids ↔
      List.Forall₂ Eq (s.rules.enabled.map RuleId.plainName) (ids.map RuleId.label) := by
    simp only [List.forall₂_map_left_iff, List.forall₂_map_right_iff, RuleId.parse_eq_ok_iff]
  rw [enabledRules, Data.mapError_eq_ok_iff, Data.mapM_eq_ok_iff, hmap, List.forall₂_eq_eq_eq, eq_comm]

theorem places_of_threads {n : Nat} (h : s.scan.threads = some n) (processors : Nat) :
    s.places processors = n := by
  rw [places, h, Option.getD_some]

theorem verbosity_eq_quiet_iff : s.verbosity = .quiet ↔ s.output.quiet := by
  unfold verbosity
  cases s.output.quiet <;> cases s.output.verbose <;> simp

/-- Settings that ask for both are quiet. -/
theorem verbosity_eq_verbose_iff (h : ¬ (s.output.verbose ∧ s.output.quiet)) :
    s.verbosity = .verbose ↔ s.output.verbose := by
  unfold verbosity
  revert h
  cases s.output.quiet <;> cases s.output.verbose <;> simp

theorem ruleSettings_of_enabledRules (h : s.enabledRules = .ok ids) : s.ruleSettings =
    .ok { enabled := ids, encodings := s.rules.encodings, constants := s.rules.constants } := by
  rw [ruleSettings, h]
  rfl

theorem Valid.exists_enabledRules (h : s.Valid) : ∃ ids, s.enabledRules = .ok ids ∧ ids ≠ [] := by
  obtain ⟨ids, hids⟩ := exists_enabledRules_iff.2 h.known
  refine ⟨ids, hids, ?_⟩
  rintro rfl
  have hnames := enabledRules_eq_ok_iff.1 hids
  exact h.enabled (List.map_eq_nil_iff.1 hnames.symm)

open Run in
/-- Settings are accepted if each of them is in range, the flags for verbosity do not contradict each
other, and the rules that are asked for, of which there is one at least, have names of rules. Accepted
settings can be used: the rules are the named ones, and those in force are these, each once, in the order
of the names. Nothing else that a run is made of is refused on account of the rules or of what was checked.
The settings of each command line are accepted before they are used. -/
theorem accepted_settings_usable (s : Settings) :
    (s.validate = .ok () ↔
      (∀ n, s.scan.threads = some n → 1 ≤ n ∧ n ≤ 1000) ∧ 0 < s.scan.timeout ∧
      ¬ (s.output.verbose ∧ s.output.quiet) ∧ s.rules.enabled ≠ [] ∧
      ∀ name ∈ s.rules.enabled, ∃ id : RuleId, RuleId.plainName name = id.label) ∧
    (s.validate = .ok () → ∃ ids : List RuleId,
      let rs : RuleSettings :=
        { enabled := ids, encodings := s.rules.encodings, constants := s.rules.constants }
      ids.map RuleId.label = s.rules.enabled.map RuleId.plainName ∧
      s.ruleSettings = .ok rs ∧
      (∀ w load, CanSearch w rs → ∃ rules, rulesFor w rs load = .ok rules ∧ rules.rules ≠ [] ∧
        ListsOnce ids rules.ids) ∧
      (∀ w path fault, ofSettings w path s = .error fault → filterFor s = .error fault ∨
        loaderFor w.files s = .error fault ∨ ∃ load, rulesFor w rs load = .error fault) ∧
      (∀ n processors, s.scan.threads = some n → s.places processors = n ∧ 0 < n) ∧
      (s.verbosity = .quiet ↔ s.output.quiet) ∧ (s.verbosity = .verbose ↔ s.output.verbose)) ∧
    ∀ fs userDirectory env a, resolve fs userDirectory env a = .ok s → s.validate = .ok () := by
  refine ⟨?_, fun h => ?_, fun fs userDirectory env a h => ?_⟩
  · rw [validate_eq_ok_iff]
    exact ⟨fun h => ⟨h.threads, h.timeout, h.verbosity, h.enabled, h.known⟩,
      fun ⟨hthreads, htimeout, hverbosity, henabled, hknown⟩ =>
        ⟨hthreads, htimeout, hverbosity, henabled, hknown⟩⟩
  · have hvalid := validate_eq_ok_iff.1 h
    obtain ⟨ids, hids, hne⟩ := hvalid.exists_enabledRules
    have hsettings := ruleSettings_of_enabledRules hids
    refine ⟨ids, enabledRules_eq_ok_iff.1 hids, hsettings, fun w load hsearch => ?_,
      fun w path fault => ofSettings_eq_error hsettings, fun n processors hn => ?_,
      verbosity_eq_quiet_iff, verbosity_eq_verbose_iff hvalid.verbosity⟩
    · refine ⟨_, rulesFor_of_canSearch hsearch load, ?_, ?_⟩
      · exact fun hnil => firstPlaces_ne_nil hne (List.map_eq_nil_iff.1 hnil)
      · rw [RuleSet.ids_ofSettings]
        exact listsOnce_firstPlaces ids
    · exact ⟨places_of_threads hn processors, (hvalid.threads n hn).1⟩
  · obtain ⟨-, -, -, -, -, hvalid⟩ := resolve_eq_ok_iff.1 h
    exact validate_eq_ok_iff.2 hvalid

/-- A rule is asked for twice, in different spellings. -/
def repetitiveSettings : Settings where
  scan := { threads := some 1000 }
  rules := { enabled := ["\tEncoding ", "manifest", "ENCODING"] }
  output := { verbose := true }

theorem accepted_settings_usable_repetitive :
    repetitiveSettings.validate = .ok () ∧
    ∃ ids : List RuleId, ids.map RuleId.label = ["encoding", "manifest", "encoding"] ∧
      repetitiveSettings.ruleSettings = .ok { enabled := ids } ∧
      (∀ load, ∃ rules, Run.rulesFor Run.manifestAlone { enabled := ids } load = .ok rules ∧
        rules.rules ≠ [] ∧ ListsOnce ids rules.ids) ∧
      repetitiveSettings.places 8 = 1000 ∧ repetitiveSettings.verbosity = .verbose := by
  obtain ⟨-, haccepted, -⟩ := accepted_settings_usable repetitiveSettings
  have hvalid : repetitiveSettings.validate = .ok () := by cbv
  have hnames : repetitiveSettings.rules.enabled.map RuleId.plainName =
      ["encoding", "manifest", "encoding"] := by decide
  obtain ⟨ids, hlabels, hsettings, hrules, -, hplaces, -, hverbose⟩ := haccepted hvalid
  exact ⟨hvalid, ids, hlabels.trans hnames, hsettings,
    fun load => hrules Run.manifestAlone load fun _ _ => rfl, (hplaces 1000 8 rfl).1, hverbose.2 rfl⟩

end Settings
end ExtensionLint
