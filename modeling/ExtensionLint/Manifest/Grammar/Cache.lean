import ExtensionLint.Caching.Bounded
import ExtensionLint.Fault
import ExtensionLint.Manifest.ExtensionType
import ExtensionLint.Manifest.Grammar

/-!
A cache of grammars by type of extension, on top of a library of caches. A type is loaded once; that no
grammar exists is stored like a grammar, and a load that fails is not.
-/
namespace ExtensionLint.Grammar

/-- What a load that does not fail yields: a grammar, or that there is none. -/
abbrev Loaded := Option Grammar

/-- Libraries that offer caches of grammars. -/
abbrev Caches := CacheLibrary ExtensionType Loaded GrammarFault

/-- Grammars in a cache of a library; unless told otherwise, in a bounded one with a place for each
type. -/
structure Cache (lib : Caches := BoundedCache.library ExtensionType Loaded GrammarFault) where
  capacity : Nat := ExtensionType.all.length
  inner : lib.State capacity := lib.build capacity

namespace Cache

variable {lib : Caches}

/-- What is stored for a type, or else what the load yields; the load happens only if it has to. -/
def getOrLoadM {σ : Type} (c : Cache lib) (type : ExtensionType)
    (load : StateM σ (Except GrammarFault Loaded)) :
    StateM σ (Except GrammarFault Loaded × Cache lib) := do
  let (loaded, inner) ← lib.tryGetWith c.inner type load
  return (loaded, { c with inner })

def get (c : Cache lib) (type : ExtensionType) : Option Loaded × Cache lib :=
  let (loaded, inner) := lib.get c.inner type
  (loaded, { c with inner })

def contains (c : Cache lib) (type : ExtensionType) : Bool := lib.containsKey c.inner type

def clear (c : Cache lib) : Cache lib := { c with inner := lib.invalidateAll c.inner }

def settle (c : Cache lib) : Cache lib := { c with inner := lib.runPendingTasks c.inner }

def size (c : Cache lib) : Nat := lib.entryCount c.inner

structure Stats where
  entryCount : Nat
  deriving DecidableEq, Repr

/-- The numbers of a cache are those of one that is settled. -/
def stats (c : Cache lib) : Stats × Cache lib := (⟨c.settle.size⟩, c.settle)

end Cache
end ExtensionLint.Grammar
