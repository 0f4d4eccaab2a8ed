import Mathlib.Data.List.DropRight
import Mathlib.Data.List.Perm.Subperm
import ExtensionLint.Proofs.Caching.Bounded
import ExtensionLint.Manifest.Grammar.Cache

/-!
# Caches with room for every type

A cache that has room for every type answers as its log tells, whichever library it comes from, if only
the library keeps to what it documents: a type has what its first load yielded that succeeded since the
cache was cleared, and no other load is made (`run_answers`).
-/

namespace ExtensionLint.Grammar

open CacheLibrary (RoomForAll)

variable {lib : Caches} {σ : Type}

/-! ## Sessions -/

/-- What is asked of a cache. A load may do something to the world around it. -/
inductive Call (σ : Type)
  | getOrLoad (type : ExtensionType) (load : StateM σ (Except GrammarFault Loaded))
  | get (type : ExtensionType)
  | contains (type : ExtensionType)
  | clear
  | stats

/-- What a cache has answered. -/
inductive Event
  | loaded (type : ExtensionType) (outcome : Except GrammarFault Loaded)
  | found (type : ExtensionType) (what : Option Loaded)
  | contained (type : ExtensionType) (whether : Bool)
  | cleared
  | counted (stats : Cache.Stats)

def Call.clears : Call σ → Bool
  | clear => true
  | _ => false

namespace Event

def clears : Event → Bool
  | cleared => true
  | _ => false

/-- What has been loaded for the type, if this is such an answer. -/
def loaded? (type : ExtensionType) : Event → Option Loaded
  | loaded other outcome => if type = other then outcome.toOption else none
  | _ => none

end Event

def Cache.answer (c : Cache lib) : Call σ → StateM σ (Event × Cache lib)
  | .getOrLoad type load => do
    let (outcome, c) ← c.getOrLoadM type load
    return (.loaded type outcome, c)
  | .get type => return (.found type (c.get type).1, (c.get type).2)
  | .contains type => return (.contained type (c.contains type), c)
  | .clear => return (.cleared, c.clear)
  | .stats => return (.counted c.stats.1, c.stats.2)

/-- A cache with what it has answered so far, and the world around it. -/
structure Session (lib : Caches) (σ : Type) where
  log : List Event := []
  cache : Cache lib
  world : σ

namespace Session

def step (s : Session lib σ) (call : Call σ) : Session lib σ :=
  let result := (s.cache.answer call).run s.world
  { log := s.log ++ [result.1.1], cache := result.1.2, world := result.2 }

def run (s : Session lib σ) (calls : List (Call σ)) : Session lib σ := calls.foldl step s

end Session

/-! ## What is stored -/

/-- What the first load of a type yielded that succeeded since the cache was last cleared. -/
def stored (log : List Event) (type : ExtensionType) : Option Loaded :=
  (log.rtakeWhile (!·.clears)).findSome? (·.loaded? type)

/-- What a map answers that stores so much: a load is made only if nothing is stored for its type. -/
def Call.expected (stored : ExtensionType → Option Loaded) (world : σ) : Call σ → Event × σ
  | getOrLoad type load =>
    match stored type with
    | some loaded => (.loaded type (.ok loaded), world)
    | none => (.loaded type (load.run world).1, (load.run world).2)
  | get type => (.found type (stored type), world)
  | contains type => (.contained type (stored type).isSome, world)
  | clear => (.cleared, world)
  | stats => (.counted ⟨(ExtensionType.all.filter fun type => (stored type).isSome).length⟩, world)

theorem stored_concat (log : List Event) (event : Event) (type : ExtensionType) :
    stored (log ++ [event]) type =
      if event.clears then none else (stored log type).or (event.loaded? type) := by
  rw [stored, List.rtakeWhile_concat]
  cases hevent : event.clears with
  | true => rfl
  | false => simp [stored, List.findSome?_append]

/-! ## Room for every type -/

theorem roomForAll {n : Nat} (h : ExtensionType.all.length ≤ n) : RoomForAll ExtensionType n :=
  fun _ hnodup =>
    (List.subperm_of_subset hnodup fun type _ => by cases type <;> decide).length_le.trans h

namespace Cache

/-- What is stored for a type. -/
def holds (c : Cache lib) (type : ExtensionType) : Option Loaded := (c.get type).1

/-! ## Calls -/

section Calls

variable (hlib : lib.Documented) {c : Cache lib} {type : ExtensionType}
  (load : StateM σ (Except GrammarFault Loaded)) (world : σ)

include hlib

theorem getOrLoadM_of_holds {loaded : Loaded} (h : c.holds type = some loaded) :
    ((c.getOrLoadM type load).run world).1.1 = .ok loaded ∧
      ((c.getOrLoadM type load).run world).2 = world :=
  hlib.tryGetWith_of_held c.inner type loaded load world h

theorem getOrLoadM_of_not_holds (h : c.holds type = none) :
    ((c.getOrLoadM type load).run world).1.1 = (load.run world).1 ∧
      ((c.getOrLoadM type load).run world).2 = (load.run world).2 :=
  hlib.tryGetWith_of_not_held c.inner type load world h

/-- What is stored would have been the answer. -/
theorem not_holds_of_error {fault : GrammarFault}
    (h : ((c.getOrLoadM type load).run world).1.1 = .error fault) : c.holds type = none := by
  cases hholds : c.holds type with
  | none => rfl
  | some loaded => cases h.symm.trans (getOrLoadM_of_holds hlib load world hholds).1

/-- What a load answers is stored from then on, if it is no fault; nothing else changes. -/
theorem holds_getOrLoadM (hroom : RoomForAll ExtensionType c.capacity) (other : ExtensionType) :
    ((c.getOrLoadM type load).run world).1.2.holds other =
      if other = type then ((c.getOrLoadM type load).run world).1.1.toOption else c.holds other := by
  cases hanswer : ((c.getOrLoadM type load).run world).1.1 with
  | ok loaded =>
      have hstored := hlib.holds_tryGetWith_ok c.inner type loaded load world hroom hanswer
      split
      next h => exact h ▸ hstored.1
      next h => exact hstored.2 other h
  | error fault =>
      refine (hlib.holds_tryGetWith_error c.inner type fault load world hroom hanswer other).trans ?_
      split
      next h => exact h ▸ not_holds_of_error hlib load world hanswer
      next => rfl

theorem holds_answer (hroom : RoomForAll ExtensionType c.capacity) (call : Call σ) :
    let result := (c.answer call).run world
    result.1.2.holds type =
      if result.1.1.clears then none else (c.holds type).or (result.1.1.loaded? type) := by
  cases call with
  | getOrLoad other load =>
      refine (holds_getOrLoadM hlib load world hroom type).trans ?_
      change _ = (c.holds type).or (if type = other then
        ((c.getOrLoadM other load).run world).1.1.toOption else none)
      split
      next h =>
        subst h
        cases hholds : c.holds type with
        | none => rfl
        | some loaded =>
            rw [(getOrLoadM_of_holds hlib load world hholds).1]
            rfl
      next => exact (Option.or_none ..).symm
  | get other => exact (hlib.holds_get c.inner other type hroom).trans (Option.or_none ..).symm
  | contains other => exact (Option.or_none ..).symm
  | clear => exact hlib.holds_invalidateAll c.inner type
  | stats => exact (hlib.holds_runPendingTasks c.inner type hroom).trans (Option.or_none ..).symm

/-- A cache answers like a map of what it holds. -/
theorem answer_eq_expected (hroom : RoomForAll ExtensionType c.capacity) (call : Call σ) :
    let result := (c.answer call).run world
    (result.1.1, result.2) = call.expected c.holds world := by
  cases call with
  | getOrLoad type load =>
      rw [Call.expected]
      cases hholds : c.holds type with
      | some loaded =>
          obtain ⟨hanswer, hworld⟩ := getOrLoadM_of_holds hlib load world hholds
          exact Prod.ext (congrArg (Event.loaded type) hanswer) hworld
      | none =>
          obtain ⟨hanswer, hworld⟩ := getOrLoadM_of_not_holds hlib load world hholds
          exact Prod.ext (congrArg (Event.loaded type) hanswer) hworld
  | get type => rfl
  | contains type =>
      exact congrArg (fun whether => (Event.contained type whether, world))
        (hlib.containsKey_eq c.inner type)
  | clear => rfl
  | stats =>
      have hall : (ExtensionType.all.filter fun type => (c.holds type).isSome).Nodup :=
        .filter _ (by decide)
      have hmem (type : ExtensionType) :
          type ∈ (ExtensionType.all.filter fun type => (c.holds type).isSome) ↔
            (c.holds type).isSome := by
        rw [List.mem_filter]
        exact and_iff_right (by cases type <;> decide)
      exact congrArg (fun count => (Event.counted ⟨count⟩, world))
        (hlib.entryCount_runPendingTasks c.inner _ hroom hall hmem)

end Calls
end Cache

/-! ## Whole sessions -/

namespace Session

variable {s s' : Session lib σ} {type : ExtensionType} {loaded : Loaded} {later : List (Call σ)}

/-- A cache that has room for every type and holds what its log tells. -/
structure Faithful (s : Session lib σ) : Prop where
  room : RoomForAll ExtensionType s.cache.capacity
  holds_eq : s.cache.holds = stored s.log

theorem faithful_start {capacity : Nat} (hlib : lib.Documented)
    (h : ExtensionType.all.length ≤ capacity) (world : σ) :
    Faithful { cache := ({ capacity } : Cache lib), world } where
  room := roomForAll h
  holds_eq := funext fun type => hlib.holds_build capacity type

theorem stored_step (s : Session lib σ) (call : Call σ) (h : ¬ call.clears)
    (hstored : stored s.log type = some loaded) : stored (s.step call).log type = some loaded := by
  have hclears : ¬ ((s.cache.answer call).run s.world).1.1.clears := by
    cases call with
    | clear => exact absurd rfl h
    | _ => exact Bool.false_ne_true
  refine (stored_concat ..).trans ?_
  rw [if_neg hclears, hstored, Option.some_or]

theorem stored_run (hlater : ∀ call ∈ later, ¬ call.clears)
    (hstored : stored s.log type = some loaded) : stored (s.run later).log type = some loaded := by
  induction later generalizing s with
  | nil => exact hstored
  | cons call later ih =>
      rw [List.forall_mem_cons] at hlater
      exact ih hlater.2 (stored_step s call hlater.1 hstored)

section Documented

variable (hlib : lib.Documented)
include hlib

theorem Faithful.step (hs : s.Faithful) (call : Call σ) : (s.step call).Faithful where
  room := by cases call <;> exact hs.room
  holds_eq := by
    funext type
    refine (Cache.holds_answer hlib s.world hs.room call).trans ?_
    rw [hs.holds_eq]
    exact (stored_concat ..).symm

theorem Faithful.run (hs : s.Faithful) (calls : List (Call σ)) : (s.run calls).Faithful := by
  induction calls generalizing s with
  | nil => exact hs
  | cons call calls ih => exact ih (hs.step hlib call)

theorem Faithful.answer_eq (hs : s.Faithful) (call : Call σ) :
    let result := (s.cache.answer call).run s.world
    (result.1.1, result.2) = call.expected (stored s.log) s.world :=
  hs.holds_eq ▸ Cache.answer_eq_expected hlib s.world hs.room call

/-- Where two logs tell the same, the same calls are answered alike from then on. -/
theorem Faithful.alike (hs : s.Faithful) (hs' : s'.Faithful) (hworld : s'.world = s.world)
    (hstored : stored s'.log = stored s.log) (later : List (Call σ)) :
    ∃ answers, (s.run later).log = s.log ++ answers ∧ (s'.run later).log = s'.log ++ answers ∧
      (s'.run later).world = (s.run later).world := by
  induction later generalizing s s' with
  | nil => exact ⟨[], (List.append_nil _).symm, (List.append_nil _).symm, hworld⟩
  | cons call later ih =>
      have hexpected : call.expected (stored s'.log) s'.world = call.expected (stored s.log) s.world := by
        rw [hstored, hworld]
      have hanswers := (hs'.answer_eq hlib call).trans (hexpected.trans (hs.answer_eq hlib call).symm)
      obtain ⟨hevent, hafter⟩ := Prod.ext_iff.mp hanswers
      have htells : stored (s'.step call).log = stored (s.step call).log := by
        funext type
        simp only [Session.step, stored_concat, hstored]
        rw [hevent]
      obtain ⟨answers, hlog, hlog', hend⟩ := ih (hs.step hlib call) (hs'.step hlib call) hafter htells
      refine ⟨((s.cache.answer call).run s.world).1.1 :: answers, ?_, ?_, hend⟩
      · exact hlog.trans (List.append_assoc ..)
      · exact hlog'.trans (by rw [← hevent]; exact List.append_assoc ..)

end Documented

/-- Whatever has been asked of a cache that has room for every type, it answers like a map of what is
stored. A load that succeeds is stored until the cache is cleared; one that fails leaves nothing behind
that any later answer could show. -/
theorem run_answers (hlib : lib.Documented) {capacity : Nat}
    (h : ExtensionType.all.length ≤ capacity) (calls : List (Call σ)) (world : σ) :
    let start : Session lib σ := { cache := { capacity }, world }
    let s := start.run calls
    (∀ call, let result := (s.cache.answer call).run s.world
      (result.1.1, result.2) = call.expected (stored s.log) s.world) ∧
    (∀ type load loaded later, ((s.cache.getOrLoadM type load).run s.world).1.1 = .ok loaded →
      (∀ call ∈ later, ¬ call.clears) →
      let s' := s.run (.getOrLoad type load :: later)
      (s'.cache.get type).1 = some loaded ∧ s'.cache.contains type) ∧
    ∀ type load fault later, ((s.cache.getOrLoadM type load).run s.world).1.1 = .error fault →
      let failed := s.step (.getOrLoad type load)
      let unasked := { s with world := failed.world }
      (load.run s.world).1 = .error fault ∧ failed.world = (load.run s.world).2 ∧
        ∃ answers, (failed.run later).log = failed.log ++ answers ∧
          (unasked.run later).log = unasked.log ++ answers ∧
          (unasked.run later).world = (failed.run later).world := by
  intro start s
  have hs : s.Faithful := (faithful_start hlib h world).run hlib calls
  refine ⟨hs.answer_eq hlib, fun type load loaded later hload hlater => ?_,
    fun type load fault later hload => ?_⟩
  · intro s'
    have hloaded := hs.step hlib (.getOrLoad type load)
    have hstored : stored (s.step (.getOrLoad type load)).log type = some loaded := by
      rw [← hloaded.holds_eq]
      refine (Cache.holds_getOrLoadM hlib load s.world hs.room type).trans ?_
      rw [if_pos rfl, hload]
      rfl
    have hget : (s'.cache.get type).1 = some loaded :=
      (congrFun (hloaded.run hlib later).holds_eq type).trans (stored_run hlater hstored)
    exact ⟨hget, (hlib.containsKey_eq s'.cache.inner type).trans (congrArg Option.isSome hget)⟩
  · intro failed unasked
    have hfailed : failed.Faithful := hs.step hlib _
    have hunasked : unasked.Faithful := ⟨hs.room, hs.holds_eq⟩
    have hlog : failed.log = s.log ++ [.loaded type (.error fault)] :=
      congrArg (fun outcome => s.log ++ [Event.loaded type outcome]) hload
    have hstored : stored failed.log = stored unasked.log := by
      funext other
      rw [hlog, stored_concat]
      simp [Event.clears, Event.loaded?, Except.toOption, unasked]
    have hmissing : s.cache.holds type = none := Cache.not_holds_of_error hlib load s.world hload
    obtain ⟨hanswer, hworld⟩ := Cache.getOrLoadM_of_not_holds hlib load s.world hmissing
    exact ⟨hanswer.symm.trans hload, hworld, hfailed.alike hlib hunasked rfl hstored.symm later⟩

/-- Of three types one has been forgotten since, one could not be loaded, and one is stored. -/
theorem run_answers_cleared :
    let lib : Caches := BoundedCache.library ExtensionType Loaded GrammarFault
    let fault : GrammarFault := .unreadable "dtd_plugin.json" "denied"
    let counted (outcome : Except GrammarFault Loaded) : StateM Nat (Except GrammarFault Loaded) :=
      fun loads => (outcome, loads + 1)
    let calls : List (Call Nat) := [.getOrLoad .file (counted (.ok none)), .clear,
      .getOrLoad .plugin (counted (.error fault)), .getOrLoad .module (counted (.ok (some {})))]
    let s := run { cache := ({ capacity := 8 } : Cache lib), world := 0 } calls
    let answer (call : Call Nat) : Event × Nat :=
      (((s.cache.answer call).run s.world).1.1, ((s.cache.answer call).run s.world).2)
    let failed := s.step (.getOrLoad .plugin (counted (.error fault)))
    lib.Documented ∧ ExtensionType.all.length ≤ 8 ∧ s.world = 3 ∧
    answer (.getOrLoad .file (counted (.ok none))) = (.loaded .file (.ok none), 4) ∧
    answer (.getOrLoad .module (counted (.ok none))) = (.loaded .module (.ok (some {})), 3) ∧
    answer (.contains .plugin) = (.contained .plugin false, 3) ∧
    answer .stats = (.counted ⟨1⟩, 3) ∧
    ((s.run [.getOrLoad .module (counted (.ok none)), .stats]).cache.get .module).1 = some (some {}) ∧
    ∃ answers, (failed.run [.stats]).log = failed.log ++ answers ∧
      (run { s with world := 4 } [.stats]).log = s.log ++ answers := by
  intro lib fault counted calls s answer failed
  have hlib : lib.Documented := BoundedCache.documented_library
  have hroom : ExtensionType.all.length ≤ 8 := by decide
  obtain ⟨hanswer, hkept, hfailed⟩ := run_answers hlib hroom calls 0
  obtain ⟨-, -, answers, hlog, hlog', -⟩ :=
    hfailed .plugin (counted (.error fault)) fault [.stats] rfl
  refine ⟨hlib, hroom, rfl, (hanswer _).trans rfl, (hanswer _).trans rfl, (hanswer _).trans rfl,
    (hanswer _).trans rfl, ?_, answers, hlog, hlog'⟩
  exact (hkept .module (counted (.ok none)) (some {}) [.stats] rfl (by simp [Call.clears])).1

end Session
end ExtensionLint.Grammar
