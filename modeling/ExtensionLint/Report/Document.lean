import ExtensionLint.Data.Json
import ExtensionLint.Report

/-!
Reports as documents. An entry without line or code leaves these fields out; reading a document back
gives the report it was written from.
-/
namespace ExtensionLint

open Data

def Entry.toValue (e : Entry) : Value :=
  let line := e.line.map fun n : Nat => ("line", Value.integer n)
  let code := e.code.map fun s => ("code", Value.text s)
  .table ([("file", .text e.file), ("severity", .text e.severity.label), ("message", .text e.message)]
    ++ line.toList ++ code.toList)

def Severity.ofValue? (v : Value) : Option Severity :=
  (v.choice? Json.dialect (Severity.all.map Severity.label)).bind Severity.ofLabel?

/-- A field that may be null or left out. -/
def optionalField? (read : Value → Option α) : Option Value → Option (Option α) :=
  Value.orElse none (Value.nullable? read)

def Entry.ofValue? (v : Value) : Option Entry := do
  match ← v.fields? ["file", "severity", "message", "line", "code"] with
  | [some file, some severity, some message, line, code] =>
    return {
      file := ← file.text?
      severity := ← Severity.ofValue? severity
      message := ← message.text?
      line := ← optionalField? Value.natural? line
      code := ← optionalField? Value.text? code }
  | _ => none

def Report.toValue (r : Report) : Value := .table [("entries", .list (r.entries.map Entry.toValue))]

def Report.ofValue? (v : Value) : Option Report := do
  match ← v.fields? ["entries"] with
  | [some entries] => return ⟨← Value.listOf? Entry.ofValue? entries⟩
  | _ => none

def Report.write (r : Report) : String := Json.write r.toValue

def Report.parse? (s : String) : Option Report := (Json.parse? s).bind Report.ofValue?

end ExtensionLint
