import ExtensionLint.Caching
import ExtensionLint.Data.Entries

/-!
A cache with a limited number of places. What is loaded is remembered at once. Only when pending tasks
are run do the keys loaded since then compete for the places, and a key that gets none is forgotten.
-/
namespace ExtensionLint

/-- Values by key, with places for `capacity` of them. -/
structure BoundedCache (κ ν : Type) (capacity : Nat) where
  entries : List (κ × ν) := []
  /-- The keys that have a place, the least recently used one first. -/
  places : List κ := []
  /-- The keys asked for since tasks were run and whether they were remembered, the latest first. -/
  requests : List (κ × Bool) := []
  /-- Keys loaded since tasks were run, the latest first. -/
  arrivals : List κ := []
  /-- Keys of the requests that count for popularity, once requests are counted. -/
  tally : Option (List κ) := none

namespace BoundedCache

variable {κ ν ε : Type} [DecidableEq κ] {n : Nat}

def get? (c : BoundedCache κ ν n) (key : κ) : Option ν := c.entries.lookup key

def contains (c : BoundedCache κ ν n) (key : κ) : Bool := (c.get? key).isSome

def forget (c : BoundedCache κ ν n) (key : κ) : List (κ × ν) := c.entries.filter (·.1 ≠ key)

def request (c : BoundedCache κ ν n) (key : κ) : BoundedCache κ ν n :=
  { c with requests := (key, c.contains key) :: c.requests }

/-- The cache with what a load yielded; one without places takes nothing. -/
def insert (c : BoundedCache κ ν n) (key : κ) (value : ν) : BoundedCache κ ν n :=
  if n = 0 then c
  else { c with entries := Data.put key value c.entries, arrivals := key :: c.arrivals }

/-- The cache without its entries. Their places become free when pending tasks are run. -/
def clear (c : BoundedCache κ ν n) : BoundedCache κ ν n := { c with entries := [] }

/-! ### Places -/

/-- The count at which a key is as popular as can be. -/
def highestCount : Nat := 15

/-- How often a key has been requested since requests are counted. -/
def popularity (c : BoundedCache κ ν n) (key : κ) : Nat :=
  min highestCount ((c.tally.getD []).count key)

/-- The cache where the place of a key is the one used last, if it has one. -/
def touch (c : BoundedCache κ ν n) (key : κ) : BoundedCache κ ν n :=
  if c.places.contains key then { c with places := c.places.erase key ++ [key] } else c

def reckon (c : BoundedCache κ ν n) (r : κ × Bool) : BoundedCache κ ν n :=
  let counted := { c with tally := c.tally.map (r.1 :: ·) }
  if r.2 then counted.touch r.1 else counted

/-- Where no place is free, a key may take that of the least recently used one if it is more popular.
The keys in `later` are neither driven out nor forgotten, for their turn is still to come. -/
def compete (c : BoundedCache κ ν n) (key : κ) (later : List κ) : BoundedCache κ ν n :=
  let busy := c.places.takeWhile later.contains
  let kept := if later.contains key then c.entries else c.forget key
  match c.places.dropWhile later.contains with
  | oldest :: others =>
    if c.popularity oldest < c.popularity key then
      { c with entries := c.forget oldest, places := others ++ busy ++ [key] }
    else { c with entries := kept, places := oldest :: others ++ busy }
  | [] => { c with entries := kept }

/-- Finds a place for a key that has been loaded; `later` are the keys loaded after it. -/
def place (c : BoundedCache κ ν n) (key : κ) (later : List κ) : BoundedCache κ ν n :=
  if c.places.contains key then c.touch key
  else if c.places.length < n then { c with places := c.places ++ [key] }
  else c.compete key later

def placeAll : List κ → BoundedCache κ ν n → BoundedCache κ ν n
  | [], c => c
  | key :: later, c => placeAll later (c.place key later)

/-- Counts requests from when half of the places are taken. -/
def startCounting (c : BoundedCache κ ν n) : BoundedCache κ ν n :=
  if c.tally.isNone ∧ n / 2 ≤ c.places.length then { c with tally := some [] } else c

def vacate (c : BoundedCache κ ν n) : BoundedCache κ ν n :=
  { c with places := c.places.filter c.contains }

/-- The cache with all requests reckoned with, from which the keys loaded are taken. -/
def reckonAll (c : BoundedCache κ ν n) : BoundedCache κ ν n :=
  c.requests.reverse.foldl reckon { c with requests := [], arrivals := [] }

/-- Reckons with all requests and finds places for all keys loaded since the last time. -/
def settle (c : BoundedCache κ ν n) : BoundedCache κ ν n :=
  (placeAll c.arrivals.reverse c.reckonAll).startCounting.vacate

/-! ### Seats -/

/-- Whichever key is remembered has a place or waits for one. -/
structure Seated (waiting : List κ) (c : BoundedCache κ ν n) : Prop where
  nodup : c.places.Nodup
  mem_or_mem : ∀ key, c.contains key → key ∈ c.places ∨ key ∈ waiting

/-- Two caches that remember the same, with the same places in another order. -/
structure Rearranged (c c' : BoundedCache κ ν n) : Prop where
  entries_eq : c'.entries = c.entries
  perm : c'.places.Perm c.places

section Rearranged

variable {c c' c'' : BoundedCache κ ν n} {waiting : List κ}

omit [DecidableEq κ] in
theorem Rearranged.refl (c : BoundedCache κ ν n) : Rearranged c c := ⟨rfl, .refl _⟩

omit [DecidableEq κ] in
theorem Rearranged.trans (h : Rearranged c c') (h' : Rearranged c' c'') : Rearranged c c'' :=
  ⟨h'.entries_eq.trans h.entries_eq, h'.perm.trans h.perm⟩

theorem contains_congr (h : c'.entries = c.entries) (key : κ) : c'.contains key = c.contains key := by
  rw [contains, get?, h, contains, get?]

theorem Rearranged.seated (h : Rearranged c c') (hc : c.Seated waiting) : c'.Seated waiting where
  nodup := h.perm.nodup_iff.mpr hc.nodup
  mem_or_mem key hkey := by
    rw [contains_congr h.entries_eq] at hkey
    exact (hc.mem_or_mem key hkey).imp_left h.perm.mem_iff.mpr

theorem rearranged_touch (c : BoundedCache κ ν n) (key : κ) : Rearranged c (c.touch key) := by
  unfold touch
  split
  next h =>
    have hmem : key ∈ c.places := by simpa using h
    exact ⟨rfl, List.perm_append_comm.trans (List.perm_cons_erase hmem).symm⟩
  next => exact .refl c

theorem rearranged_reckon (c : BoundedCache κ ν n) (r : κ × Bool) : Rearranged c (c.reckon r) := by
  have hcounted : Rearranged c { c with tally := c.tally.map (r.1 :: ·) } := ⟨rfl, .refl _⟩
  unfold reckon
  split
  · exact hcounted.trans (rearranged_touch _ _)
  · exact hcounted

theorem rearranged_reckonAll (c : BoundedCache κ ν n) : Rearranged c c.reckonAll := by
  have hfold (rs : List (κ × Bool)) (c : BoundedCache κ ν n) : Rearranged c (rs.foldl reckon c) := by
    induction rs generalizing c with
    | nil => exact .refl c
    | cons r rs ih => exact (rearranged_reckon c r).trans (ih _)
  have hstart : Rearranged c { c with requests := [], arrivals := [] } := ⟨rfl, .refl _⟩
  exact hstart.trans (hfold _ _)

omit [DecidableEq κ] in
theorem rearranged_startCounting (c : BoundedCache κ ν n) : Rearranged c c.startCounting := by
  unfold startCounting
  split <;> exact ⟨rfl, .refl _⟩

end Rearranged

section Seated

variable {c : BoundedCache κ ν n} {key : κ} {waiting later : List κ}

theorem Seated.mono {waiting' : List κ} (hc : c.Seated waiting) (h : waiting ⊆ waiting') :
    c.Seated waiting' :=
  ⟨hc.nodup, fun key hkey => (hc.mem_or_mem key hkey).imp_right (h ·)⟩

theorem Seated.insert (hc : c.Seated c.arrivals) (key : κ) (value : ν) :
    (c.insert key value).Seated (c.insert key value).arrivals := by
  unfold BoundedCache.insert
  split
  next => exact hc
  next =>
    refine ⟨hc.nodup, fun other hother => ?_⟩
    by_cases hkey : other = key
    · exact .inr (hkey ▸ List.mem_cons_self)
    · have hcontains : c.contains other := by
        rwa [contains, get?, Data.lookup_put_of_ne hkey] at hother
      exact (hc.mem_or_mem other hcontains).imp_right (List.mem_cons_of_mem _)

theorem of_forget {other : κ} (h : ((c.forget other).lookup key).isSome) :
    key ≠ other ∧ c.contains key := by
  rw [forget, Data.lookup_filter_ne] at h
  split at h
  next => cases h
  next hne => exact ⟨hne, h⟩

/-- Whoever is driven out of a place is forgotten, and whoever gets none is kept only if it waits for
another turn. -/
theorem Seated.compete (hc : c.Seated (key :: later)) (hkey : key ∉ c.places) :
    (c.compete key later).Seated later := by
  have hseat {other : κ} (h : c.contains other) (hne : other ≠ key) :
      other ∈ c.places ∨ other ∈ later :=
    (hc.mem_or_mem other h).imp_right fun hmem => (List.mem_cons.mp hmem).resolve_left hne
  have hkept {other : κ} (h :
      ((if later.contains key then c.entries else c.forget key).lookup other).isSome) :
      other ∈ c.places ∨ other ∈ later := by
    split at h
    next hlater =>
      have hmem : key ∈ later := by simpa using hlater
      exact if hne : other = key then .inr (hne ▸ hmem) else hseat h hne
    next => exact hseat (of_forget h).2 (of_forget h).1
  have hplaces := List.takeWhile_append_dropWhile (p := later.contains) (l := c.places)
  cases hrest : c.places.dropWhile later.contains with
  | nil =>
    simp only [BoundedCache.compete, hrest]
    exact ⟨hc.nodup, fun _ => hkept⟩
  | cons oldest others =>
    simp only [BoundedCache.compete, hrest]
    rw [hrest] at hplaces
    have hperm : (oldest :: others ++ c.places.takeWhile later.contains).Perm c.places :=
      List.perm_append_comm.trans (.of_eq hplaces)
    have hnodup := hperm.nodup_iff.mpr hc.nodup
    split
    next =>
      rw [List.cons_append, List.nodup_cons] at hnodup
      have hother {other : κ} (hne : other ≠ oldest) (h : other ∈ c.places) :
          other ∈ others ++ c.places.takeWhile later.contains :=
        (List.mem_cons.mp (hperm.mem_iff.mpr h)).resolve_left hne
      have hnew : key ∉ others ++ c.places.takeWhile later.contains := fun h =>
        hkey (hperm.mem_iff.mp (List.mem_cons_of_mem _ h))
      refine ⟨(List.perm_append_singleton ..).nodup_iff.mpr (List.nodup_cons.mpr ⟨hnew, hnodup.2⟩),
        fun other h => ?_⟩
      obtain ⟨hne, hcontains⟩ := of_forget h
      obtain hmem | hmem := hc.mem_or_mem other hcontains
      · exact .inl (List.mem_append_left _ (hother hne hmem))
      · exact (List.mem_cons.mp hmem).imp_left fun (heq : other = key) => heq ▸ by simp
    next => exact ⟨hnodup, fun other h => (hkept h).imp_left hperm.mem_iff.mpr⟩

theorem Seated.place (hc : c.Seated (key :: later)) : (c.place key later).Seated later := by
  unfold BoundedCache.place
  split
  next h =>
    have hmem : key ∈ c.places := by simpa using h
    refine (rearranged_touch c key).seated ⟨hc.nodup, fun other hother => ?_⟩
    obtain h | h := hc.mem_or_mem other hother
    · exact .inl h
    · exact (List.mem_cons.mp h).imp_left fun (heq : other = key) => heq ▸ hmem
  next h =>
    have hmem : key ∉ c.places := by simpa using h
    split
    next =>
      refine ⟨(List.perm_append_singleton ..).nodup_iff.mpr (List.nodup_cons.mpr ⟨hmem, hc.nodup⟩),
        fun other hother => ?_⟩
      obtain h | h := hc.mem_or_mem other hother
      · exact .inl (List.mem_append_left _ h)
      · exact (List.mem_cons.mp h).imp_left fun (heq : other = key) => heq ▸ by simp
    next => exact hc.compete hmem

theorem Seated.placeAll {keys : List κ} (hc : c.Seated keys) : (placeAll keys c).Seated [] := by
  induction keys generalizing c with
  | nil => exact hc
  | cons key later ih => exact ih hc.place

/-- Once tasks have been run, the keys that are remembered are those that have a place. -/
theorem Seated.settle (hc : c.Seated c.arrivals) : c.settle.Seated [] := by
  have hwaiting := ((rearranged_reckonAll c).seated hc).mono fun _ => List.mem_reverse.mpr
  have hplaced := (rearranged_startCounting _).seated hwaiting.placeAll
  refine ⟨hplaced.nodup.filter _, fun key hkey => ?_⟩
  exact (hplaced.mem_or_mem key hkey).imp_left fun h => List.mem_filter.mpr ⟨h, hkey⟩

end Seated

/-! ### The library -/

/-- A cache in which every key that is remembered has a place or is still to compete for one. -/
abbrev Sound (κ ν : Type) [DecidableEq κ] (n : Nat) : Type :=
  { c : BoundedCache κ ν n // c.Seated c.arrivals }

namespace Sound

def build (n : Nat) : Sound κ ν n := ⟨{}, .nil, fun _ h => by cases h⟩

def request (s : Sound κ ν n) (key : κ) : Sound κ ν n :=
  ⟨s.1.request key, s.2.nodup, s.2.mem_or_mem⟩

def insert (s : Sound κ ν n) (key : κ) (value : ν) : Sound κ ν n :=
  ⟨s.1.insert key value, s.2.insert key value⟩

def tryGetWith {σ : Type} (s : Sound κ ν n) (key : κ) (load : StateM σ (Except ε ν)) :
    StateM σ (Except ε ν × Sound κ ν n) :=
  match s.1.get? key with
  | some value => return (.ok value, s.request key)
  | none => do
    match ← load with
    | .ok value => return (.ok value, (s.request key).insert key value)
    | .error fault => return (.error fault, s.request key)

def clear (s : Sound κ ν n) : Sound κ ν n := ⟨s.1.clear, s.2.nodup, fun _ h => by cases h⟩

def settle (s : Sound κ ν n) : Sound κ ν n := ⟨s.1.settle, s.2.settle.mono (List.nil_subset _)⟩

end Sound

/-- The library of such caches. -/
def library (κ ν ε : Type) [DecidableEq κ] : CacheLibrary κ ν ε where
  State := Sound κ ν
  build := Sound.build
  tryGetWith := Sound.tryGetWith
  get s key := (s.1.get? key, s.request key)
  containsKey s := s.1.contains
  invalidateAll := Sound.clear
  runPendingTasks := Sound.settle
  entryCount s := s.1.places.length

end BoundedCache
end ExtensionLint
