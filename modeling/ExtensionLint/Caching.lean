/-!
Caches as a library offers them. How a library makes room, and what it gives up when there is none, is
its own affair; what is relied on is documented behaviour (`Documented`).
-/
namespace ExtensionLint

/-- Caches of values `ν` under keys `κ`, with loads that may fail with an `ε`. -/
structure CacheLibrary (κ ν ε : Type) where
  /-- The states of a cache that has been built for so many entries. -/
  State (capacity : Nat) : Type
  build (capacity : Nat) : State capacity
  /-- The value under a key, or else what the load yields, which is inserted unless it is a fault. -/
  tryGetWith {σ : Type} {n : Nat} : State n → κ → StateM σ (Except ε ν) →
    StateM σ (Except ε ν × State n)
  /-- The value under a key; to have been asked for it may change what a cache gives up. -/
  get {n : Nat} : State n → κ → Option ν × State n
  containsKey {n : Nat} : State n → κ → Bool
  invalidateAll {n : Nat} : State n → State n
  /-- Does the work on entries that has been put off. -/
  runPendingTasks {n : Nat} : State n → State n
  entryCount {n : Nat} : State n → Nat

namespace CacheLibrary

variable {κ ν ε : Type}

/-- The value that a cache holds under a key. -/
def holds (lib : CacheLibrary κ ν ε) {n : Nat} (s : lib.State n) (key : κ) : Option ν :=
  (lib.get s key).1

/-- No cache for `n` entries has to give up a key, whichever come. -/
def RoomForAll (κ : Type) (n : Nat) : Prop := ∀ keys : List κ, keys.Nodup → keys.length ≤ n

/-- What the library documents. That a value stays where it is can only be relied on in a cache with room
for all keys. -/
structure Documented (lib : CacheLibrary κ ν ε) : Prop where
  holds_build (n : Nat) (key : κ) : lib.holds (lib.build n) key = none
  containsKey_eq {n : Nat} (s : lib.State n) (key : κ) :
    lib.containsKey s key = (lib.holds s key).isSome
  /-- A value that is held is the answer, and the load is not made. -/
  tryGetWith_of_held {σ : Type} {n : Nat} (s : lib.State n) (key : κ) (value : ν)
    (load : StateM σ (Except ε ν)) (world : σ) : lib.holds s key = some value →
      ((lib.tryGetWith s key load).run world).1.1 = .ok value ∧
        ((lib.tryGetWith s key load).run world).2 = world
  /-- Where no value is held, the load is made and yields the answer. -/
  tryGetWith_of_not_held {σ : Type} {n : Nat} (s : lib.State n) (key : κ)
    (load : StateM σ (Except ε ν)) (world : σ) : lib.holds s key = none →
      ((lib.tryGetWith s key load).run world).1.1 = (load.run world).1 ∧
        ((lib.tryGetWith s key load).run world).2 = (load.run world).2
  /-- A value that has been answered is held. -/
  holds_tryGetWith_ok {σ : Type} {n : Nat} (s : lib.State n) (key : κ) (value : ν)
    (load : StateM σ (Except ε ν)) (world : σ) : RoomForAll κ n →
      ((lib.tryGetWith s key load).run world).1.1 = .ok value →
      lib.holds ((lib.tryGetWith s key load).run world).1.2 key = some value ∧
        ∀ other, other ≠ key →
          lib.holds ((lib.tryGetWith s key load).run world).1.2 other = lib.holds s other
  /-- A load that fails inserts nothing. -/
  holds_tryGetWith_error {σ : Type} {n : Nat} (s : lib.State n) (key : κ) (fault : ε)
    (load : StateM σ (Except ε ν)) (world : σ) : RoomForAll κ n →
      ((lib.tryGetWith s key load).run world).1.1 = .error fault →
      ∀ other, lib.holds ((lib.tryGetWith s key load).run world).1.2 other = lib.holds s other
  holds_get {n : Nat} (s : lib.State n) (key other : κ) : RoomForAll κ n →
    lib.holds (lib.get s key).2 other = lib.holds s other
  holds_invalidateAll {n : Nat} (s : lib.State n) (key : κ) :
    lib.holds (lib.invalidateAll s) key = none
  holds_runPendingTasks {n : Nat} (s : lib.State n) (key : κ) : RoomForAll κ n →
    lib.holds (lib.runPendingTasks s) key = lib.holds s key
  /-- Once nothing is put off, the count is exact. -/
  entryCount_runPendingTasks {n : Nat} (s : lib.State n) (keys : List κ) : RoomForAll κ n →
    keys.Nodup → (∀ key, key ∈ keys ↔ (lib.holds s key).isSome) →
    lib.entryCount (lib.runPendingTasks s) = keys.length

end CacheLibrary
end ExtensionLint
