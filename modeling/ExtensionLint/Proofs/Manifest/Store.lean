import Mathlib
import ExtensionLint.Manifest.Grammar.Store
import ExtensionLint.Proofs.FileSystem.Plain
import ExtensionLint.Proofs.Manifest.Cache

/-!
A store of grammars over a whole run, in which types are loaded while the files of its directory change.
The first load of a type that succeeds settles the type for good; until then each load looks at the
files as they are.
-/
namespace ExtensionLint.Grammar

open CacheLibrary (RoomForAll)
open FileSystem (PlainDirectory)
open ExtensionLint.Path (join IsName)

inductive Step
  | load (type : ExtensionType)
  /-- A file of the directory is written. -/
  | write (name : String) (bytes : List UInt8)
  | remove (name : String)
  /-- Whatever else may happen to files. -/
  | change (files : FileSystem)

namespace Step

/-- Whether a step loads the type or does anything to files. -/
def matters (type : ExtensionType) : Step → Bool
  | load other => other = type
  | _ => true

/-- Whether a step loads the type or may change its document. -/
def concerns (type : ExtensionType) : Step → Bool
  | load other => other = type
  | write name _ => name = type.grammarFile
  | remove name => name = type.grammarFile
  | change _ => true

/-- A step that stays within the directory. -/
def IsPlain : Step → Prop
  | load _ => True
  | write name _ => IsName name
  | remove name => IsName name
  | change _ => False

end Step

/-- Files with a store that has grammars from one of their directories. -/
structure World (lib : Caches) where
  files : FileSystem
  store : Store lib

namespace World

variable {lib : Caches} {directory : String} {w w' : World lib} {type other : ExtensionType}
  {loaded : Loaded}

/-- What a load of a type would answer. -/
def answer (w : World lib) (type : ExtensionType) : Except GrammarFault Loaded :=
  (w.store.load w.files type).1

def step (directory : String) (w : World lib) : Step → World lib
  | .load type => { w with store := (w.store.load w.files type).2 }
  | .write name bytes => { w with files := w.files.put (join directory name) (.file bytes) }
  | .remove name => { w with files := (w.files.remove? (join directory name)).getD w.files }
  | .change files => { w with files }

def run (directory : String) (w : World lib) (steps : List Step) : World lib :=
  steps.foldl (step directory) w

/-- A store of the directory in which nothing has been loaded. -/
def fresh (lib : Caches) (directory : String) (files : FileSystem) : World lib :=
  ⟨files, { source := .directory directory }⟩

def remembered? (w : World lib) (type : ExtensionType) : Option Loaded := w.store.memory.holds type

/-- The store has room for every type. -/
def Roomy (w : World lib) : Prop := RoomForAll ExtensionType w.store.memory.capacity

theorem roomy_fresh (files : FileSystem) : (fresh lib directory files).Roomy :=
  roomForAll (Nat.le_refl _)

theorem Roomy.step (hw : w.Roomy) (s : Step) : (w.step directory s).Roomy := by
  cases s <;> exact hw

theorem source_step (s : Step) : (w.step directory s).store.source = w.store.source := by
  cases s <;> rfl

theorem run_append (steps more : List Step) :
    w.run directory (steps ++ more) = (w.run directory steps).run directory more :=
  List.foldl_append ..

theorem source_run (steps : List Step) : (w.run directory steps).store.source = w.store.source := by
  induction steps generalizing w with
  | nil => rfl
  | cons s steps ih => exact (ih (w := w.step directory s)).trans (source_step s)

theorem Roomy.run (hw : w.Roomy) (steps : List Step) : (w.run directory steps).Roomy := by
  induction steps generalizing w with
  | nil => exact hw
  | cons s steps ih => exact ih (hw.step s)

theorem toOption_eq_some_iff {ε α : Type} {e : Except ε α} {a : α} :
    e.toOption = some a ↔ e = .ok a := by
  cases e <;> simp [Except.toOption]

section Documented

variable (hlib : lib.Documented)
include hlib

/-! ## One step -/

theorem answer_of_remembered (h : w.remembered? type = some loaded) : w.answer type = .ok loaded :=
  (Cache.getOrLoadM_of_holds hlib _ _ h).1

theorem answer_of_not_remembered (h : w.remembered? type = none) :
    w.answer type = w.store.source.read w.files type :=
  (Cache.getOrLoadM_of_not_holds hlib _ _ h).1

theorem remembered?_load (hw : w.Roomy) : (w.step directory (.load type)).remembered? other =
    if other = type then (w.answer type).toOption else w.remembered? other :=
  Cache.holds_getOrLoadM hlib _ _ hw other

/-- A load that fails leaves no trace in what is remembered. -/
theorem remembered?_load_of_error {fault : GrammarFault} (hw : w.Roomy)
    (h : w.answer type = .error fault) :
    (w.step directory (.load type)).remembered? = w.remembered? := by
  funext other
  rw [remembered?_load hlib hw, h]
  split
  next heq => exact (heq ▸ Cache.not_holds_of_error hlib _ _ h : w.remembered? other = none).symm
  next => rfl

theorem remembered?_step_of_some (hw : w.Roomy) (h : w.remembered? type = some loaded) (s : Step) :
    (w.step directory s).remembered? type = some loaded := by
  cases s with
  | load other =>
      rw [remembered?_load hlib hw]
      split
      next heq =>
        rw [← heq, answer_of_remembered hlib h]
        rfl
      next => exact h
  | _ => exact h

/-! ## A whole run -/

theorem remembered?_run_of_some (hw : w.Roomy) (h : w.remembered? type = some loaded)
    (steps : List Step) : (w.run directory steps).remembered? type = some loaded := by
  induction steps generalizing w with
  | nil => exact h
  | cons s steps ih => exact ih (hw.step s) (remembered?_step_of_some hlib hw h s)

theorem answer_run_of_ok (hw : w.Roomy) (h : w.answer type = .ok loaded) (steps : List Step) :
    (w.run directory (.load type :: steps)).answer type = .ok loaded := by
  have hload : (w.step directory (.load type)).remembered? type = some loaded := by
    rw [remembered?_load hlib hw, if_pos rfl, h]
    rfl
  exact answer_of_remembered hlib (remembered?_run_of_some hlib (hw.step _) hload steps)

/-- What is remembered has been answered by an earlier load. -/
theorem exists_load_of_remembered? {files : FileSystem} {steps : List Step}
    (h : ((fresh lib directory files).run directory steps).remembered? type = some loaded) :
    ∃ before after, steps = before ++ .load type :: after ∧
      ((fresh lib directory files).run directory before).answer type = .ok loaded := by
  induction steps using List.reverseRecOn with
  | nil => cases (hlib.holds_build _ type).symm.trans h
  | append_singleton steps s ih =>
      have hearlier
          (h : ((fresh lib directory files).run directory steps).remembered? type = some loaded) :
          ∃ before after, steps ++ [s] = before ++ .load type :: after ∧
            ((fresh lib directory files).run directory before).answer type = .ok loaded := by
        obtain ⟨before, after, rfl, hanswer⟩ := ih h
        exact ⟨before, after ++ [s], by simp, hanswer⟩
      rw [run_append] at h
      -- the last step has brought it in, or it was remembered before
      cases s with
      | load t =>
          change (step directory _ (.load t)).remembered? type = _ at h
          rw [remembered?_load hlib ((roomy_fresh files).run steps)] at h
          split at h
          next heq =>
            subst heq
            exact ⟨steps, [], rfl, toOption_eq_some_iff.1 h⟩
          next => exact hearlier h
      | _ => exact hearlier h

/-! ## Steps that do not matter to a type -/

/-- Two worlds with room in which a type is remembered and would be read alike. -/
structure Alike (type : ExtensionType) (w w' : World lib) : Prop where
  roomy : w.Roomy
  roomy' : w'.Roomy
  remembered : w.remembered? type = w'.remembered? type
  read : w.store.source.read w.files type = w'.store.source.read w'.files type

theorem Alike.answer (h : Alike type w w') : w.answer type = w'.answer type := by
  cases hw : w.remembered? type with
  | some loaded =>
      rw [answer_of_remembered hlib hw, answer_of_remembered hlib (h.remembered ▸ hw)]
  | none =>
      rw [answer_of_not_remembered hlib hw, answer_of_not_remembered hlib (h.remembered ▸ hw), h.read]

theorem Alike.remembered_load (h : Alike type w w') :
    (w.step directory (.load type)).remembered? type =
      (w'.step directory (.load type)).remembered? type := by
  rw [remembered?_load hlib h.roomy, remembered?_load hlib h.roomy', if_pos rfl, if_pos rfl,
    h.answer hlib]

/-- Steps may be left out if the worlds with and without them stay alike. -/
theorem answer_run_filter {R : World lib → World lib → Prop} {keep : Step → Bool} {steps : List Step}
    (halike : ∀ w w', R w w' → Alike type w w')
    (hkept : ∀ s ∈ steps, keep s = true →
      ∀ w w', R w w' → R (w.step directory s) (w'.step directory s))
    (hleft : ∀ s ∈ steps, keep s = false → ∀ w w', R w w' → R (w.step directory s) w')
    (h : R w w') :
    (w.run directory steps).answer type = (w'.run directory (steps.filter keep)).answer type := by
  induction steps generalizing w w' with
  | nil => exact (halike w w' h).answer hlib
  | cons s steps ih =>
      rw [List.forall_mem_cons] at hkept hleft
      cases hs : keep s with
      | true =>
          rw [List.filter_cons_of_pos hs]
          exact ih hkept.2 hleft.2 (hkept.1 hs w w' h)
      | false =>
          rw [List.filter_cons_of_neg (by simp [hs])]
          exact ih hkept.2 hleft.2 (hleft.1 hs w w' h)

/-- Two worlds with the same files and sources, in which a type is remembered alike. -/
structure Same (type : ExtensionType) (w w' : World lib) : Prop where
  roomy : w.Roomy
  roomy' : w'.Roomy
  files : w.files = w'.files
  source : w.store.source = w'.store.source
  remembered : w.remembered? type = w'.remembered? type

omit hlib in
theorem Same.alike (h : Same type w w') : Alike type w w' :=
  ⟨h.roomy, h.roomy', h.remembered, by rw [h.files, h.source]⟩

/-- What a load of one type does to another one is nothing. -/
theorem remembered?_load_of_ne (hw : w.Roomy) (h : type ≠ other) :
    (w.step directory (.load other)).remembered? type = w.remembered? type := by
  rw [remembered?_load hlib hw, if_neg h]

theorem Same.step (h : Same type w w') (s : Step) :
    Same type (w.step directory s) (w'.step directory s) where
  roomy := h.roomy.step s
  roomy' := h.roomy'.step s
  files := by
    cases s with
    | load other => exact h.files
    | change files => rfl
    | write name bytes => exact congrArg (·.put (join directory name) (.file bytes)) h.files
    | remove name =>
        exact congrArg (fun files => (files.remove? (join directory name)).getD files) h.files
  source := (source_step s).trans (h.source.trans (source_step s).symm)
  remembered := by
    cases s with
    | load other =>
        by_cases heq : type = other
        · subst heq
          exact h.alike.remembered_load hlib
        · rw [remembered?_load_of_ne hlib h.roomy heq, remembered?_load_of_ne hlib h.roomy' heq]
          exact h.remembered
    | _ => exact h.remembered

theorem Same.run (h : Same type w w') (steps : List Step) :
    Same type (w.run directory steps) (w'.run directory steps) := by
  induction steps generalizing w w' with
  | nil => exact h
  | cons s steps ih => exact ih (h.step hlib s)

theorem answer_filter_matters (hw : w.Roomy) (steps : List Step) :
    (w.run directory steps).answer type =
      (w.run directory (steps.filter (·.matters type))).answer type := by
  refine answer_run_filter hlib (R := Same type) (fun _ _ h => h.alike)
    (fun s _ _ _ _ h => h.step hlib s) ?_ ⟨hw, hw, rfl, rfl, rfl⟩
  intro s _ hs w w' h
  cases s with
  | load other =>
      have hne : type ≠ other := fun heq => of_decide_eq_false hs heq.symm
      exact ⟨h.roomy, h.roomy', h.files, h.source,
        (remembered?_load_of_ne hlib h.roomy hne).trans h.remembered⟩
  | _ => cases hs

/-! ## Plain directories -/

omit hlib in
theorem isName_grammarFile (type : ExtensionType) : IsName type.grammarFile := by
  cases type <;> decide

/-- Two worlds of a plain directory in which a type is remembered alike and has the same document. -/
structure PlainAlike (directory : String) (type : ExtensionType) (w w' : World lib) : Prop where
  roomy : w.Roomy
  roomy' : w'.Roomy
  source : w.store.source = .directory directory
  source' : w'.store.source = .directory directory
  remembered : w.remembered? type = w'.remembered? type
  files : ∃ entries entries', PlainDirectory w.files directory entries ∧
    PlainDirectory w'.files directory entries' ∧
    entries.lookup type.grammarFile = entries'.lookup type.grammarFile

omit hlib in
theorem PlainAlike.alike (h : PlainAlike directory type w w') : Alike type w w' := by
  obtain ⟨entries, entries', hplain, hplain', hentry⟩ := h.files
  refine ⟨h.roomy, h.roomy', h.remembered, ?_⟩
  have htext := hplain.readText_congr hplain' (isName_grammarFile type) hentry
  rw [h.source, h.source']
  simp only [Source.read, Source.readFrom, htext]

/-- In a plain directory all steps on other types may be left out, whether they load or change files. -/
theorem answer_filter_concerns {entries : List (String × FileNode)} {steps : List Step} (hw : w.Roomy)
    (hplain : PlainDirectory w.files directory entries)
    (hsource : w.store.source = .directory directory) (hsteps : ∀ s ∈ steps, s.IsPlain) :
    (w.run directory steps).answer type =
      (w.run directory (steps.filter (·.concerns type))).answer type := by
  refine answer_run_filter hlib (R := PlainAlike directory type) (fun _ _ h => h.alike) ?_ ?_
    ⟨hw, hw, hsource, hsource, rfl, entries, entries, hplain, hplain, rfl⟩
  · intro s hmem hs w w' h
    obtain ⟨es, es', hes, hes', hentry⟩ := h.files
    cases s with
    | load other =>
        obtain rfl : other = type := of_decide_eq_true hs
        exact ⟨h.roomy, h.roomy', h.source, h.source', h.alike.remembered_load hlib, h.files⟩
    | write name bytes =>
        have hname : IsName name := hsteps _ hmem
        refine ⟨h.roomy, h.roomy', h.source, h.source', h.remembered, _, _, hes.write hname bytes,
          hes'.write hname bytes, ?_⟩
        obtain rfl : name = type.grammarFile := of_decide_eq_true hs
        rw [Data.lookup_put_self, Data.lookup_put_self]
    | remove name =>
        have hname : IsName name := hsteps _ hmem
        obtain ⟨left, hleft, hlookup⟩ := hes.remove hname
        obtain ⟨left', hleft', hlookup'⟩ := hes'.remove hname
        refine ⟨h.roomy, h.roomy', h.source, h.source', h.remembered, _, _, hleft, hleft', ?_⟩
        obtain rfl : name = type.grammarFile := of_decide_eq_true hs
        rw [hlookup, hlookup', hentry]
    | change files => exact (hsteps _ hmem).elim
  · intro s hmem hs w w' h
    obtain ⟨es, es', hes, hes', hentry⟩ := h.files
    cases s with
    | load other =>
        have hne : type ≠ other := fun heq => of_decide_eq_false hs heq.symm
        exact ⟨h.roomy, h.roomy', h.source, h.source',
          (remembered?_load_of_ne hlib h.roomy hne).trans h.remembered, h.files⟩
    | write name bytes =>
        have hne : type.grammarFile ≠ name := fun heq => of_decide_eq_false hs heq.symm
        refine ⟨h.roomy, h.roomy', h.source, h.source', h.remembered, _, _,
          hes.write (hsteps _ hmem) bytes, hes', ?_⟩
        rw [Data.lookup_put_of_ne hne, hentry]
    | remove name =>
        have hne : type.grammarFile ≠ name := fun heq => of_decide_eq_false hs heq.symm
        obtain ⟨left, hleft, hlookup⟩ := hes.remove (hsteps _ hmem)
        refine ⟨h.roomy, h.roomy', h.source, h.source', h.remembered, _, _, hleft, hes', ?_⟩
        rw [hlookup, if_neg hne, hentry]
    | change files => exact (hsteps _ hmem).elim

end Documented

/-! ## The answers of a store -/

/-- A type that has been loaded keeps its answer, whatever happens to files. Before that, its answer is
told by the document as it is, a load that fails leaves nothing behind that any later load could show,
and other types do not matter. -/
theorem answers_over_run (hlib : lib.Documented) (directory : String) (files : FileSystem)
    (steps : List Step) (type : ExtensionType) :
    let start := fresh lib directory files
    let w := start.run directory steps
    let path := join directory type.grammarFile
    (∀ before after loaded, steps = before ++ .load type :: after →
      (start.run directory before).answer type = .ok loaded → w.answer type = .ok loaded) ∧
    ((∀ before after loaded, steps = before ++ .load type :: after →
        (start.run directory before).answer type ≠ .ok loaded) →
      (w.files.readText path = .error .missing → w.answer type = .ok none) ∧
      (∀ fault, fault ≠ .missing → w.files.readText path = .error fault →
        w.answer type = .error (.unreadable path fault.message)) ∧
      (∀ text, w.files.readText path = .ok text →
        w.answer type = (Grammar.parse type.grammarFile (String.ofList text)).map some)) ∧
    (∀ fault, w.answer type = .error fault →
      let failed := w.step directory (.load type)
      failed.files = w.files ∧ failed.store.source = w.store.source ∧
        failed.remembered? = w.remembered? ∧
        ∀ later other,
          (failed.run directory later).answer other = (w.run directory later).answer other) ∧
    w.answer type = (start.run directory (steps.filter (·.matters type))).answer type ∧
    (∀ entries, PlainDirectory files directory entries → (∀ s ∈ steps, s.IsPlain) →
      w.answer type = (start.run directory (steps.filter (·.concerns type))).answer type) := by
  intro start w path
  have hstart : start.Roomy := roomy_fresh files
  have hw : w.Roomy := hstart.run steps
  refine ⟨?_, ?_, fun fault h => ?_, answer_filter_matters hlib hstart steps,
    fun entries hplain hsteps => answer_filter_concerns hlib hstart hplain rfl hsteps⟩
  · rintro before after loaded rfl hbefore
    change (start.run directory (before ++ .load type :: after)).answer type = _
    rw [run_append]
    exact answer_run_of_ok hlib (hstart.run before) hbefore after
  · intro hnone
    have hremembered : w.remembered? type = none := by
      rw [← Option.not_isSome_iff_eq_none]
      intro hsome
      obtain ⟨loaded, hloaded⟩ := Option.isSome_iff_exists.1 hsome
      obtain ⟨before, after, hsteps, hanswer⟩ := exists_load_of_remembered? hlib hloaded
      exact hnone before after loaded hsteps hanswer
    have hread : w.answer type = Source.readFrom w.files directory type := by
      rw [answer_of_not_remembered hlib hremembered, source_run]
      rfl
    rw [hread]
    refine ⟨fun h => ?_, fun fault hfault h => ?_, fun text h => ?_⟩
    · simp [Source.readFrom, path, h]
    · simp [Source.readFrom, path, h]
    · simp [Source.readFrom, path, h]
  · have hremembered : (w.step directory (.load type)).remembered? = w.remembered? :=
      remembered?_load_of_error hlib hw h
    refine ⟨rfl, rfl, hremembered, fun later other => ?_⟩
    have hsame : Same other (w.step directory (.load type)) w :=
      ⟨hw.step _, hw, rfl, rfl, congrFun hremembered other⟩
    exact (hsame.run hlib later).alike.answer hlib

def grammarFiles : FileSystem where
  root := .directory [("g", .directory [])]

/-- A type without a document is loaded, and then documents that are no text are written. -/
def spoiling : List Step :=
  [.load .module, .write "dtd_module.json" [0xFF], .write "dtd_plugin.json" [0xFF], .load .module]

theorem plain_grammarFiles : PlainDirectory grammarFiles "g" [] where
  path := ⟨by simp, by decide, by decide, by decide⟩
  at_names := by cbv
  no_links := by simp

/-- The system takes the paths of the documents. -/
theorem fits_grammarFile (type : ExtensionType) :
    ¬ (join "g" type.grammarFile).contains '\x00' = true ∧
      ¬ (FileSystem.longestPath < (join "g" type.grammarFile).utf8ByteSize ∨
        FileSystem.longestName < type.grammarFile.utf8ByteSize) := by
  have hjoin : join "g" type.grammarFile = "g" ++ "/" ++ type.grammarFile :=
    Path.join_eq (by decide) (by cbv) (isName_grammarFile type)
  rw [hjoin, String.contains_char_eq]
  constructor <;> cases type <;> decide

theorem read_grammarFile {files : FileSystem} {entries : List (String × FileNode)}
    (h : PlainDirectory files "g" entries) (type : ExtensionType) :
    files.read (join "g" type.grammarFile) =
      PlainDirectory.contents (entries.lookup type.grammarFile) := by
  obtain ⟨hzero, hlong⟩ := fits_grammarFile type
  rw [h.read_join (isName_grammarFile type), if_neg hzero, if_neg hlong]

theorem remains_grammarFile (type : ExtensionType) (bytes : List UInt8) :
    PlainDirectory.remains "g" type.grammarFile (some (.file bytes)) = none := by
  obtain ⟨hzero, hlong⟩ := fits_grammarFile type
  exact if_neg (not_or.mpr ⟨hzero, hlong⟩)

theorem answers_over_run_spoiling :
    let lib : Caches := BoundedCache.library ExtensionType Loaded GrammarFault
    let w := (fresh lib "g" grammarFiles).run "g" spoiling
    lib.Documented ∧
    w.answer .module = .ok none ∧
    w.answer .file = .ok none ∧
    ((w.step "g" (.load .plugin)).run "g" [.remove "dtd_plugin.json"]).answer .plugin = .ok none ∧
    w.answer .plugin =
      ((fresh lib "g" grammarFiles).run "g" [.write "dtd_plugin.json" [0xFF]]).answer .plugin := by
  intro lib w
  have hlib : lib.Documented := BoundedCache.documented_library
  have hw : PlainDirectory w.files "g" _ :=
    (plain_grammarFiles.write (isName_grammarFile .module) [0xFF]).write
      (isName_grammarFile .plugin) [0xFF]
  obtain ⟨left, hleft, hlookup⟩ := hw.remove (isName_grammarFile .plugin)
  have hnone : grammarFiles.readText (join "g" "dtd_module.json") = .error .missing :=
    congrArg (· >>= _) (read_grammarFile plain_grammarFiles .module)
  have hfile : w.files.readText (join "g" "dtd_file.json") = .error .missing :=
    congrArg (· >>= _) (read_grammarFile hw .file)
  have hplugin : w.files.readText (join "g" "dtd_plugin.json") = .error .notText :=
    congrArg (· >>= _) (read_grammarFile hw .plugin)
  have hremoved : (w.run "g" [.remove "dtd_plugin.json"]).files.readText (join "g" "dtd_plugin.json") =
      .error .missing := by
    have hread := read_grammarFile hleft .plugin
    rw [hlookup, if_pos rfl, Data.lookup_put_self, remains_grammarFile] at hread
    exact congrArg (· >>= _) hread
  have hunloaded {steps : List Step} {type : ExtensionType} (hmem : .load type ∉ steps)
      (before after : List Step) (loaded : Loaded) (hsteps : steps = before ++ .load type :: after) :
      ((fresh lib "g" grammarFiles).run "g" before).answer type ≠ .ok loaded :=
    absurd (hsteps ▸ by simp) hmem
  obtain ⟨-, hstart, -⟩ := answers_over_run hlib "g" grammarFiles [] .module
  obtain ⟨hsettled, -⟩ := answers_over_run hlib "g" grammarFiles spoiling .module
  obtain ⟨-, hmissing, -⟩ := answers_over_run hlib "g" grammarFiles spoiling .file
  obtain ⟨-, hbroken, hfailed, -, hplain⟩ := answers_over_run hlib "g" grammarFiles spoiling .plugin
  obtain ⟨-, hrepaired, -⟩ :=
    answers_over_run hlib "g" grammarFiles (spoiling ++ [.remove "dtd_plugin.json"]) .plugin
  refine ⟨hlib, ?_, ?_, ?_, ?_⟩
  · exact hsettled [] (spoiling.drop 1) _ rfl ((hstart (hunloaded (by simp))).1 hnone)
  · exact (hmissing (hunloaded (by simp [spoiling]))).1 hfile
  · have hfault := (hbroken (hunloaded (by simp [spoiling]))).2.1 _ (by decide) hplugin
    rw [(hfailed _ hfault).2.2.2]
    rw [run_append] at hrepaired
    exact (hrepaired (hunloaded (by simp [spoiling]))).1 hremoved
  · refine hplain [] plain_grammarFiles ?_
    simp only [spoiling, List.forall_mem_cons]
    exact ⟨trivial, (by decide : IsName "dtd_module.json"), (by decide : IsName "dtd_plugin.json"),
      trivial, List.forall_mem_nil _⟩

end World
end ExtensionLint.Grammar
