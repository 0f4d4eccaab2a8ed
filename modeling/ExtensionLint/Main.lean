import ExtensionLint.Run
import Std.Time.DateTime.Timestamp

/-!
The program. It reads the files that a run may look at, the environment and the clock, and prints what
the outcome of the run tells.
-/
namespace ExtensionLint

structure Snapshot where
  files : FileSystem
  places : List String := []

namespace Snapshot

/-- The snapshot with a directory, the entries of which are yet to be read. -/
def opened (s : Snapshot) (place : String) : Snapshot :=
  if s.files.isDirectory place then s
  else { s with files := s.files.put place (.directory []) }

/-- The snapshot with a link where a path leads to another place than it spells. -/
def linked (s : Snapshot) (path place : String) : Snapshot :=
  if s.files.names path = s.files.names place then s
  else { s with files := s.files.put path (.link place) }

/-- Reads what lies at a path, directories with all that is in them. -/
partial def take (s : Snapshot) (path : String) : IO Snapshot := do
  let found ← try pure (some (← IO.FS.realPath path)) catch _ => pure none
  match found with
  | none => return s
  | some real =>
    let place := real.toString
    let s := s.linked path place
    if place ∈ s.places then return s
    let s := { s with places := place :: s.places }
    if ← real.isDir then
      (← real.readDir).foldlM (fun s e => s.take (Path.join place e.fileName)) (s.opened place)
    else
      let bytes ← IO.FS.readBinFile real
      return { s with files := s.files.put place (.file bytes.toList) }

def takeAll (s : Snapshot) (paths : List String) : IO Snapshot := paths.foldlM take s

end Snapshot

def readEnvironment : IO Environment := do
  let names := "HOME" :: "XDG_CONFIG_HOME" :: Settings.knownVariables.map (·.name)
  let values ← names.mapM fun name => do return (← IO.getEnv name).map fun value => (name, value)
  return values.filterMap id

def readFiles (environment : Environment) (words : List String) : IO FileSystem := do
  let here := (← IO.currentDir).toString
  let bare : FileSystem := { root := .directory [] }
  let start := Snapshot.opened ⟨{ bare with working := bare.names here }, []⟩ here
  match Arguments.parse words with
  | .error _ => return start.files
  | .ok a =>
    let user := Settings.userDirectory environment
    let s ← start.takeAll (Settings.candidates user a)
    let grammars := match Settings.resolve s.files user environment a with
      | .ok settings => settings.rules.grammarDir.toList
      | .error _ => []
    return (← s.takeAll (a.path :: grammars)).files

def readClock : IO Timestamp := do
  let t ← Std.Time.Timestamp.now
  return ⟨t.val.second.val, t.val.nano.val.toNat⟩

def runTimed (w : Surroundings) (words : List String) (began : Nat) : IO Outcome := do
  let discovery := Duration.ofNanos ((← IO.monoNanosNow) - began)
  match Run.prepare w words with
  | .error o => return o
  | .ok r =>
    let found ← IO.lazyPure fun _ => r.results w
    let total := Duration.ofNanos ((← IO.monoNanosNow) - began)
    return r.outcome (found.map fun results => { results with discovery, total })

end ExtensionLint

open ExtensionLint

def main (words : List String) : IO UInt32 := do
  let began ← IO.monoNanosNow
  let environment ← readEnvironment
  let w : Surroundings := {
    files := ← readFiles environment words
    environment
    userDirectory := Settings.userDirectory environment
    startedAt := ← readClock
    colors := ← (← IO.getStdout).isTty }
  let o ← runTimed w words began
  IO.print o.output
  IO.eprint o.errors
  return UInt32.ofNat o.status
