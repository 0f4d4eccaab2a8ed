import ExtensionLint.Proofs.Data.Entries
import ExtensionLint.Proofs.Engine.Course
import ExtensionLint.Proofs.FileSystem
import ExtensionLint.Run

/-!
# The exit status

A command line fails before anything is checked, or it gets to its checks. Where it fails, the status is
2 and nothing is printed on the output. Where it gets to its checks, the status tells whether a report
has failed, and depends on what is checked only: not on how it is printed, and not on the course that
the checks take (`exit_status`).
-/
namespace ExtensionLint.Run

variable {w w' : Surroundings} {words words' : List String} {a a' : Arguments} {s s' : Settings}
  {r r' : Run} {c c' : Course} {o o' : Outcome} {paths paths' : List String}

/-! ## How far a command line gets -/

/-- A command line that is read and has settings in force. -/
structure Accepted (w : Surroundings) (words : List String) (a : Arguments) (s : Settings) : Prop where
  parsed : Arguments.parse words = .ok a
  resolved : Settings.resolve w.files w.userDirectory w.environment a = .ok s

theorem Accepted.unique (h : Accepted w words a s) (h' : Accepted w words a' s') :
    a' = a ∧ s' = s := by
  obtain rfl := Except.ok.inj (h'.parsed.symm.trans h.parsed)
  exact ⟨rfl, Except.ok.inj (h'.resolved.symm.trans h.resolved)⟩

open Settings

def manifestAlone : Surroundings where
  files := { root := .directory [("a.xml", .file (Text.Utf8.encode "<install/>".toList))] }
  startedAt := ⟨0, 0⟩

end ExtensionLint.Run
