import ExtensionLint.Binary64
import ExtensionLint.Fault
import ExtensionLint.Rendering

/-!
What is told on the error stream: faults that end a run, and how far a run has come. Each text ends its
line, except that progress overwrites the line before it until the run is complete.
-/
namespace ExtensionLint

structure Reporter where
  verbosity : Verbosity
  /-- The time that stands before faults, if one does. -/
  time : Option Timestamp := none

namespace Reporter

/-- A fault in quiet mode. -/
def brief : CheckFault → String
  | .traversal path _ => s!"UNREADABLE: {path}"
  | .timeout file _ => s!"TIMEOUT: {file}"
  | fault => s!"ERROR: {fault.message}"

/-- A fault with the time before it. -/
def timed (r : Reporter) (fault : CheckFault) : String :=
  match r.time with
  | some t => s!"[{t.clock}] {fault.message}"
  | none => fault.message

/-- The lines for a fault of a check. In quiet mode only critical ones are told. -/
def faultLines (r : Reporter) (fault : CheckFault) : List String :=
  match r.verbosity with
  | .quiet => if fault.isCritical then [brief fault] else []
  | .normal => [r.timed fault]
  | .verbose =>
    let suggestion := fault.suggestion?.toList.map fun s => s!"Suggestion: {s}"
    r.timed fault :: suggestion ++ [s!"Debug Info: {fault.describe}"]

def settingsLines (r : Reporter) (fault : SettingsFault) : List String :=
  match r.verbosity with
  | .quiet => [s!"Config error: {fault.message}"]
  | .normal => [s!"Configuration Error: {fault.message}", fault.help]
  | .verbose =>
    [s!"Configuration Error: {fault.message}", s!"Debug: {fault.describe}", fault.help]

def fault (r : Reporter) (f : CheckFault) : String := Style.lines (r.faultLines f)

def settingsFault (r : Reporter) (f : SettingsFault) : String := Style.lines (r.settingsLines f)

def mostPercent : Nat := UInt32.size - 1

/-- The share of the files that are done, in whole percent. The quotient and its hundredfold are
rounded like doubles before the fraction is cut off. -/
def percentage (current total : Nat) : Nat :=
  let share := Binary64.nearest (Binary64.nearest current / Binary64.nearest total)
  min (Binary64.nearest (share * 100)).floor.toNat mostPercent

/-- The text for the progress of a run; in quiet mode, and for no files, there is none. -/
def progress (r : Reporter) (current total : Nat) (file : Option String) : String :=
  if r.verbosity = .quiet ∨ total = 0 then ""
  else
    let line := s!"\rProgress: {current}/{total} ({percentage current total}%)"
    let name := match r.verbosity, file with
      | .verbose, some f => s!" - Checked: {f}"
      | _, _ => ""
    line ++ name ++ if current = total then "\n" else ""

end Reporter
end ExtensionLint
