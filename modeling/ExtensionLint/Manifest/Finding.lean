import ExtensionLint.Report

/-!
What checks of a manifest find, and how the findings on one document are reported: sorted into a
bucket by severity, then one entry for each severity that has any.
-/
namespace ExtensionLint

inductive Finding
  | unknownAttribute (node name : String)
  | unknownChildren (node : String)
  | unknownChild (node child : String)
  | missingRequired (node child : String)
  | missingOptional (node child : String)
  | multipleFound (node child : String)
  | emptyChild (child : String)
  | menuUnusedAttribute (name : String)
  | unknownType (value : String)
  | missingAttribute (node name : String)
  | unknownAttributeValue (node name value : String)
  | missingMethodUpgrade
  | grammarUnavailable (details : String)
  deriving DecidableEq, Repr

def Finding.message : Finding → String
  | unknownAttribute node name => s!"<{node}>: unknown attribute '{name}'"
  | unknownChildren node => s!"<{node}>: child elements are not expected here"
  | unknownChild node child => s!"<{node}>: unknown child <{child}>"
  | missingRequired node child => s!"<{node}>: missing required child <{child}>"
  | missingOptional node child => s!"<{node}>: missing optional child <{child}>"
  | multipleFound node child =>
    s!"<{node}>: multiple <{child}> found when a single one is expected"
  | emptyChild child => s!"<{child}>: empty element"
  | menuUnusedAttribute name =>
    s!"<menu>: attribute '{name}' is unused because 'link' overrides it"
  | unknownType value => s!"unknown extension type '{value}'"
  | missingAttribute node name => s!"<{node}>: missing attribute {name}"
  | unknownAttributeValue node name value =>
    s!"<{node}>: unknown value '{value}' of attribute {name}"
  | missingMethodUpgrade => "<extension>: method=\"upgrade\" is not set, updates will fail"
  | grammarUnavailable details => s!"manifest grammar could not be loaded: {details}"

/-- A finding with its severity. -/
structure Diagnostic where
  severity : Severity
  finding : Finding
  deriving DecidableEq, Repr

namespace Diagnostic

def error (f : Finding) : Diagnostic := ⟨.error, f⟩

def warning (f : Finding) : Diagnostic := ⟨.warning, f⟩

def notice (f : Finding) : Diagnostic := ⟨.notice, f⟩

def message (d : Diagnostic) : String := d.finding.message

def entry (d : Diagnostic) (file : String) : Entry where
  file := file
  severity := d.severity
  message := d.message

end Diagnostic

/-- Findings on one document, sorted by severity. -/
structure Bucket where
  errors : List Diagnostic := []
  warnings : List Diagnostic := []
  notices : List Diagnostic := []
  deriving DecidableEq, Repr

namespace Bucket

def push (b : Bucket) (d : Diagnostic) : Bucket :=
  match d.severity with
  | .error => { b with errors := b.errors ++ [d] }
  | .warning => { b with warnings := b.warnings ++ [d] }
  | .notice => { b with notices := b.notices ++ [d] }

def extend (b : Bucket) (ds : List Diagnostic) : Bucket := ds.foldl push b

def ofSeverity (b : Bucket) : Severity → List Diagnostic
  | .error => b.errors
  | .warning => b.warnings
  | .notice => b.notices

def size (b : Bucket) : Nat := b.errors.length + b.warnings.length + b.notices.length

def isEmpty (b : Bucket) : Bool := b.size = 0

theorem ofSeverity_push (b : Bucket) (d : Diagnostic) (s : Severity) :
    (b.push d).ofSeverity s = b.ofSeverity s ++ if d.severity = s then [d] else [] := by
  cases h : d.severity <;> cases s <;> simp [push, ofSeverity, h]

theorem ofSeverity_extend (b : Bucket) (ds : List Diagnostic) (s : Severity) :
    (b.extend ds).ofSeverity s = b.ofSeverity s ++ ds.filter (·.severity = s) := by
  induction ds generalizing b with
  | nil => simp [extend]
  | cons d ds ih =>
      have hpush := ih (b.push d)
      rw [ofSeverity_push] at hpush
      by_cases hd : d.severity = s <;> simpa [extend, hd] using hpush

theorem extend_append (b : Bucket) (ds ds' : List Diagnostic) :
    b.extend (ds ++ ds') = (b.extend ds).extend ds' := List.foldl_append

theorem isEmpty_iff (b : Bucket) : b.isEmpty = true ↔ ∀ s, b.ofSeverity s = [] := by
  constructor
  · intro h s
    have hs : b.errors.length + b.warnings.length + b.notices.length = 0 := by
      simpa [isEmpty, size] using h
    cases s <;> (apply List.length_eq_zero_iff.mp; simp only [ofSeverity]; omega)
  · intro h
    have he : b.errors = [] := h .error
    have hw : b.warnings = [] := h .warning
    have hn : b.notices = [] := h .notice
    simp [isEmpty, size, he, hw, hn]

/-- The texts of findings, each on lines of its own. -/
def joined (ds : List Diagnostic) : String := "\n".intercalate (ds.map Diagnostic.message)

def entryFor? (b : Bucket) (file : String) (s : Severity) : Option Entry :=
  if (b.ofSeverity s).isEmpty then none else some ⟨file, s, joined (b.ofSeverity s), none, none⟩

/-- The entries for all findings, gravest first. -/
def entries (b : Bucket) (file : String) : List Entry :=
  [Severity.error, .warning, .notice].filterMap (b.entryFor? file)

/-- The report with the entries for all findings behind those it has. -/
def flush (b : Bucket) (file : String) (r : Report) : Report := (b.entries file).foldl Report.add r

end Bucket
end ExtensionLint
