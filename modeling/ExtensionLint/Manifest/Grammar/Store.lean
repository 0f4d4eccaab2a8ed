import ExtensionLint.FileSystem
import ExtensionLint.Manifest.Grammar.Bundled
import ExtensionLint.Manifest.Grammar.Cache
import ExtensionLint.Manifest.Grammar.Reader

/-! Where grammars come from, and their loading by type of extension. -/
namespace ExtensionLint.Grammar

inductive Source
  | bundled
  /-- Documents in a directory; a type without a document has no grammar. -/
  | directory (path : String)
  deriving DecidableEq, Repr

namespace Source

def readFrom (fs : FileSystem) (directory : String) (type : ExtensionType) :
    Except GrammarFault Loaded :=
  let path := Path.join directory type.grammarFile
  match fs.readText path with
  | .ok text => (Grammar.parse type.grammarFile (String.ofList text)).map some
  | .error .missing => .ok none
  | .error fault => .error (.unreadable path fault.message)

def read (fs : FileSystem) (s : Source) (type : ExtensionType) : Except GrammarFault Loaded :=
  match s with
  | bundled => .ok (some (Grammar.bundled type))
  | directory path => readFrom fs path type

/-- Refuses a directory that does not exist, which would leave every type without a grammar. -/
def check (fs : FileSystem) : Source → Except GrammarFault Unit
  | bundled => .ok ()
  | directory path =>
    if fs.isDirectory path then .ok ()
    else .error (.unreadable path "not an existing directory")

end Source

/-- A source of grammars with a memory of what has been loaded. -/
structure Store (lib : Caches := BoundedCache.library ExtensionType Loaded GrammarFault) where
  source : Source
  memory : Cache lib := {}

namespace Store

variable {lib : Caches}

def open? (fs : FileSystem) (source : Source)
    (lib : Caches := BoundedCache.library ExtensionType Loaded GrammarFault) :
    Except GrammarFault (Store lib) :=
  (source.check fs).map fun _ => { source }

def load (s : Store lib) (fs : FileSystem) (type : ExtensionType) :
    Except GrammarFault Loaded × Store lib :=
  let read : StateM FileSystem (Except GrammarFault Loaded) := return s.source.read (← get) type
  let ((loaded, memory), _) := (s.memory.getOrLoadM type read).run fs
  (loaded, { s with memory })

end Store
end ExtensionLint.Grammar
