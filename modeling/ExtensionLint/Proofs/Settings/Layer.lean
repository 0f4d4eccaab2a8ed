import ExtensionLint.Settings.Layers

/-!
What each source of settings gives. A source is read into a layer, in which everything that it does not
give is left out; of two layers the upper one counts wherever it gives anything.
-/
namespace ExtensionLint

open Data

structure Layer where
  threads : Option Nat := none
  timeout : Option Nat := none
  included : Option (List String) := none
  excluded : Option (List String) := none
  maxDepth : Option Nat := none
  enabled : Option (List String) := none
  encodings : Option (List String) := none
  constants : Option (List String) := none
  grammarDir : Option String := none
  format : Option OutputFormat := none
  verbose : Option Bool := none
  quiet : Option Bool := none
  logLevel : Option String := none
  deriving DecidableEq, Repr

namespace Layer

def above (upper lower : Layer) : Layer where
  threads := upper.threads <|> lower.threads
  timeout := upper.timeout <|> lower.timeout
  included := upper.included <|> lower.included
  excluded := upper.excluded <|> lower.excluded
  maxDepth := upper.maxDepth <|> lower.maxDepth
  enabled := upper.enabled <|> lower.enabled
  encodings := upper.encodings <|> lower.encodings
  constants := upper.constants <|> lower.constants
  grammarDir := upper.grammarDir <|> lower.grammarDir
  format := upper.format <|> lower.format
  verbose := upper.verbose <|> lower.verbose
  quiet := upper.quiet <|> lower.quiet
  logLevel := upper.logLevel <|> lower.logLevel

/-- Settings with what a layer gives in place of their own. -/
def on (l : Layer) (s : Settings) : Settings where
  scan := {
    threads := l.threads <|> s.scan.threads
    timeout := l.timeout.getD s.scan.timeout
    included := l.included.getD s.scan.included
    excluded := l.excluded.getD s.scan.excluded
    maxDepth := l.maxDepth <|> s.scan.maxDepth }
  rules := {
    enabled := l.enabled.getD s.rules.enabled
    encodings := l.encodings.getD s.rules.encodings
    constants := l.constants.getD s.rules.constants
    grammarDir := l.grammarDir <|> s.rules.grammarDir }
  output := {
    format := l.format.getD s.output.format
    verbose := l.verbose.getD s.output.verbose
    quiet := l.quiet.getD s.output.quiet }
  logLevel := l.logLevel.getD s.logLevel

/-- The settings that a layer leads to above the defaults. -/
def settings (l : Layer) : Settings := l.on {}

theorem getD_orElse {α : Type} (a b : Option α) (default : α) :
    (a <|> b).getD default = a.getD (b.getD default) := by
  cases a <;> rfl

theorem orElse_assoc {α : Type} (a b c : Option α) : ((a <|> b) <|> c) = (a <|> (b <|> c)) := by
  cases a <;> rfl

theorem on_on (upper lower : Layer) (s : Settings) :
    upper.on (lower.on s) = (upper.above lower).on s := by
  simp only [on, above, getD_orElse, orElse_assoc]

/-! ## The command line -/

/-- A list counts as given if it has items. -/
def itemsGiven (items : List String) : Option (List String) :=
  if items.isEmpty then none else some items

def ofArguments (a : Arguments) : Layer where
  threads := a.threads
  timeout := a.timeout
  included := itemsGiven a.included
  excluded := itemsGiven a.excluded
  maxDepth := a.maxDepth
  enabled := a.rules
  encodings := a.encodings
  constants := a.constants
  grammarDir := a.grammarDir
  format := a.format
  -- each of the two flags settles both
  verbose := if a.verbose || a.quiet then some a.verbose else none
  quiet := if a.verbose || a.quiet then some a.quiet else none
  logLevel := a.logLevel

theorem getD_itemsGiven (items below : List String) :
    (itemsGiven items).getD below = Settings.orBelow below items := by
  simp only [itemsGiven, Settings.orBelow]
  split <;> rfl

theorem getD_flagGiven (given flag below : Bool) :
    (if given then some flag else none).getD below = if given then flag else below := by
  cases given <;> rfl

theorem on_ofArguments (a : Arguments) (s : Settings) :
    (ofArguments a).on s = s.withArguments a := by
  simp only [on, ofArguments, Settings.withArguments, getD_itemsGiven, getD_flagGiven]

/-! ## The environment -/

/-- What the value of each variable gives. Nothing is said of patterns and depth. -/
def variableLayers : List (String × (String → Option Layer)) := [
  ("EXTCHECK_THREADS", fun value =>
    (Text.natural? (Text.trimmed value)).map fun n => { threads := some n }),
  ("EXTCHECK_TIMEOUT", fun value =>
    (Text.natural? (Text.trimmed value)).map fun n => { timeout := some n }),
  ("EXTCHECK_RULES", fun value => some { enabled := some (Text.listItems value) }),
  ("EXTCHECK_ENCODINGS", fun value => some { encodings := some (Text.listItems value) }),
  ("EXTCHECK_CONSTANTS", fun value => some { constants := some (Text.listItems value) }),
  ("EXTCHECK_GRAMMAR_DIR", fun value => some { grammarDir := some value }),
  ("EXTCHECK_VERBOSE", fun value =>
    (Text.truth? (Text.trimmed value)).map fun b => { verbose := some b }),
  ("EXTCHECK_QUIET", fun value =>
    (Text.truth? (Text.trimmed value)).map fun b => { quiet := some b }),
  ("EXTCHECK_FORMAT", fun value =>
    (OutputFormat.ofLabel? (Text.lowered value)).map fun format => { format := some format }),
  ("EXTCHECK_LOG", fun value => some { logLevel := some value })]

/-- What a variable gives: nothing if it is not set; `none` if its value cannot be read. -/
def ofVariable? (env : Environment) (name : String) (read : String → Option Layer) : Option Layer :=
  match env.lookup name with
  | none => some {}
  | some value => read value

def withVariable? (env : Environment) (lower : Layer) (v : String × (String → Option Layer)) :
    Option Layer :=
  (ofVariable? env v.1 v.2).map (·.above lower)

/-- What the environment gives; `none` if a variable that is set cannot be read. -/
def ofEnvironment? (env : Environment) : Option Layer :=
  variableLayers.foldlM (withVariable? env) {}

/-- A variable that puts a layer over the settings. -/
def asVariable (v : String × (String → Option Layer)) : Variable :=
  ⟨v.1, fun value s => (v.2 value).map (·.on s)⟩

theorem knownVariables_eq : Settings.knownVariables = variableLayers.map asVariable := by
  simp only [variableLayers, asVariable, List.map_cons, List.map_nil, Option.map_map,
    Function.comp_def, Settings.knownVariables, Settings.scanVariable, Settings.rulesVariable,
    Settings.outputVariable]
  rfl

theorem toOption_bind {ε α β : Type} (e : Except ε α) (f : α → Except ε β) :
    (e >>= f).toOption = e.toOption >>= fun a => (f a).toOption := by
  cases e <;> rfl

theorem toOption_withVariable (env : Environment) (v : String × (String → Option Layer))
    (s : Settings) :
    (s.withVariable env (asVariable v)).toOption = (ofVariable? env v.1 v.2).map (·.on s) := by
  simp only [Settings.withVariable, asVariable, ofVariable?]
  cases env.lookup v.1 with
  | none => rfl
  | some value =>
      simp only
      cases v.2 value <;> rfl

theorem toOption_withEnvironment (env : Environment) (s : Settings) :
    (s.withEnvironment env).toOption = (ofEnvironment? env).map (·.on s) := by
  -- what earlier variables gave lies below what the later ones give
  have hrun (vs : List (String × (String → Option Layer))) (lower : Layer) :
      ((vs.map asVariable).foldlM (Settings.withVariable env) (lower.on s)).toOption =
        (vs.foldlM (withVariable? env) lower).map (·.on s) := by
    induction vs generalizing lower with
    | nil => rfl
    | cons v vs ih =>
        rw [List.map_cons, List.foldlM_cons, List.foldlM_cons, toOption_bind, toOption_withVariable,
          withVariable?]
        cases ofVariable? env v.1 v.2 with
        | none => rfl
        | some l => simpa [on_on] using ih (l.above lower)
  rw [Settings.withEnvironment, knownVariables_eq]
  exact hrun variableLayers {}

/-! ## A settings file -/

/-- The value of a field, if the record has one. -/
def field? (d : Dialect) (names : List String) (name : String) (v : Value) : Option Value :=
  ((v.openFields? d names).bind fun values => (names.zip values).lookup name).join

def partNames : List String := ["scan", "rules", "output", "logging"]

def scanFields : List String :=
  ["threads", "timeout_seconds", "include_patterns", "exclude_patterns", "max_depth"]

def rulesFields : List String := ["enabled", "encodings", "constants", "grammar_dir"]

def outputFields : List String := ["format", "verbose", "quiet"]

def loggingFields : List String := ["level"]

/-- What a settings document gives. A field that is null gives nothing. -/
def ofDocument (d : Dialect) (document : Value) : Layer :=
  let scan (name : String) := (field? d partNames "scan" document).bind (field? d scanFields name)
  let rules (name : String) := (field? d partNames "rules" document).bind (field? d rulesFields name)
  let output (name : String) :=
    (field? d partNames "output" document).bind (field? d outputFields name)
  let logging (name : String) :=
    (field? d partNames "logging" document).bind (field? d loggingFields name)
  { threads := (scan "threads").bind Value.natural?
    timeout := (scan "timeout_seconds").bind Value.natural?
    included := (scan "include_patterns").bind texts?
    excluded := (scan "exclude_patterns").bind texts?
    maxDepth := (scan "max_depth").bind Value.natural?
    enabled := (rules "enabled").bind texts?
    encodings := (rules "encodings").bind texts?
    constants := (rules "constants").bind texts?
    grammarDir := (rules "grammar_dir").bind Value.text?
    format := (output "format").bind (OutputFormat.ofValue? d)
    verbose := (output "verbose").bind Value.bool?
    quiet := (output "quiet").bind Value.bool?
    logLevel := (logging "level").bind Value.text? }

theorem eq_of_orElse {α : Type} {default a : α} {read : Value → Option α} {field : Option Value}
    (h : Value.orElse default read field = some a) : a = (field.bind read).getD default := by
  cases field with
  | none =>
      cases h
      rfl
  | some v =>
      simp only [Value.orElse] at h
      simp [h]

theorem eq_of_optionalField? {α : Type} {a : Option α} {read : Value → Option α}
    {field : Option Value} (hnull : read .null = none) (h : optionalField? read field = some a) :
    a = field.bind read := by
  cases field with
  | none =>
      cases h
      rfl
  | some v =>
      simp only [optionalField?, Value.orElse] at h
      unfold Value.nullable? at h
      split at h
      · cases h
        exact hnull.symm
      · obtain ⟨b, hb, rfl⟩ := Option.map_eq_some_iff.1 h
        exact hb.symm

variable {d : Dialect} {document v : Value}

theorem field?_eq {names : List String} {values : List (Option Value)}
    (h : v.openFields? d names = some values) (name : String) :
    field? d names name v = ((names.zip values).lookup name).join := by
  simp [field?, h]

theorem eq_of_scan {scan : ScanSettings}
    (h : Value.orElse {} (ScanSettings.ofValue? d) (field? d partNames "scan" document) =
      some scan) :
    scan = (ofDocument d document).settings.scan := by
  cases hv : field? d partNames "scan" document with
  | none =>
      rw [hv] at h
      cases h
      simp [settings, on, ofDocument, hv]
  | some v =>
      rw [hv, Value.orElse] at h
      simp only [ScanSettings.ofValue?] at h
      obtain ⟨values, hvalues, h⟩ := Option.bind_eq_some_iff.1 h
      split at h <;> try contradiction
      obtain ⟨threads, hthreads, h⟩ := Option.bind_eq_some_iff.1 h
      obtain ⟨timeout, htimeout, h⟩ := Option.bind_eq_some_iff.1 h
      obtain ⟨included, hincluded, h⟩ := Option.bind_eq_some_iff.1 h
      obtain ⟨excluded, hexcluded, h⟩ := Option.bind_eq_some_iff.1 h
      obtain ⟨maxDepth, hdepth, h⟩ := Option.bind_eq_some_iff.1 h
      cases h
      rw [eq_of_optionalField? rfl hthreads, eq_of_orElse htimeout, eq_of_orElse hincluded,
        eq_of_orElse hexcluded, eq_of_optionalField? rfl hdepth]
      simp only [settings, on, ofDocument, hv, Option.bind_some, scanFields, field?_eq hvalues]
      simp [List.lookup_cons]

theorem eq_of_rules {rules : RuleChoice}
    (h : Value.orElse {} (RuleChoice.ofValue? d) (field? d partNames "rules" document) =
      some rules) :
    rules = (ofDocument d document).settings.rules := by
  cases hv : field? d partNames "rules" document with
  | none =>
      rw [hv] at h
      cases h
      simp [settings, on, ofDocument, hv]
  | some v =>
      rw [hv, Value.orElse] at h
      simp only [RuleChoice.ofValue?] at h
      obtain ⟨values, hvalues, h⟩ := Option.bind_eq_some_iff.1 h
      split at h <;> try contradiction
      obtain ⟨enabled, henabled, h⟩ := Option.bind_eq_some_iff.1 h
      obtain ⟨encodings, hencodings, h⟩ := Option.bind_eq_some_iff.1 h
      obtain ⟨constants, hconstants, h⟩ := Option.bind_eq_some_iff.1 h
      obtain ⟨grammarDir, hgrammarDir, h⟩ := Option.bind_eq_some_iff.1 h
      cases h
      rw [eq_of_orElse henabled, eq_of_orElse hencodings, eq_of_orElse hconstants,
        eq_of_optionalField? rfl hgrammarDir]
      simp only [settings, on, ofDocument, hv, Option.bind_some, rulesFields, field?_eq hvalues]
      simp [List.lookup_cons]

theorem eq_of_output {output : OutputSettings}
    (h : Value.orElse {} (OutputSettings.ofValue? d) (field? d partNames "output" document) =
      some output) :
    output = (ofDocument d document).settings.output := by
  cases hv : field? d partNames "output" document with
  | none =>
      rw [hv] at h
      cases h
      simp [settings, on, ofDocument, hv]
  | some v =>
      rw [hv, Value.orElse] at h
      simp only [OutputSettings.ofValue?] at h
      obtain ⟨values, hvalues, h⟩ := Option.bind_eq_some_iff.1 h
      split at h <;> try contradiction
      obtain ⟨format, hformat, h⟩ := Option.bind_eq_some_iff.1 h
      obtain ⟨verbose, hverbose, h⟩ := Option.bind_eq_some_iff.1 h
      obtain ⟨quiet, hquiet, h⟩ := Option.bind_eq_some_iff.1 h
      cases h
      rw [eq_of_orElse hformat, eq_of_orElse hverbose, eq_of_orElse hquiet]
      simp only [settings, on, ofDocument, hv, Option.bind_some, outputFields, field?_eq hvalues]
      simp [List.lookup_cons]

theorem eq_of_logging {level : String}
    (h : Value.orElse "warn" (Settings.logLevelOf? d) (field? d partNames "logging" document) =
      some level) :
    level = (ofDocument d document).settings.logLevel := by
  cases hv : field? d partNames "logging" document with
  | none =>
      rw [hv] at h
      cases h
      simp [settings, on, ofDocument, hv]
  | some v =>
      rw [hv, Value.orElse] at h
      simp only [Settings.logLevelOf?] at h
      obtain ⟨values, hvalues, h⟩ := Option.bind_eq_some_iff.1 h
      split at h <;> try contradiction
      rw [eq_of_orElse h]
      simp only [settings, on, ofDocument, hv, Option.bind_some, loggingFields, field?_eq hvalues]
      simp

theorem eq_of_ofValue? {s : Settings} (h : Settings.ofValue? d document = some s) :
    s = (ofDocument d document).settings := by
  simp only [Settings.ofValue?] at h
  obtain ⟨values, hvalues, h⟩ := Option.bind_eq_some_iff.1 h
  split at h <;> try contradiction
  rename_i scan rules output logging
  have hscan : field? d partNames "scan" document = scan := field?_eq hvalues _
  have hrules : field? d partNames "rules" document = rules := field?_eq hvalues _
  have houtput : field? d partNames "output" document = output := field?_eq hvalues _
  have hlogging : field? d partNames "logging" document = logging := field?_eq hvalues _
  subst hscan hrules houtput hlogging
  obtain ⟨scan, hscan, h⟩ := Option.bind_eq_some_iff.1 h
  obtain ⟨rules, hrules, h⟩ := Option.bind_eq_some_iff.1 h
  obtain ⟨output, houtput, h⟩ := Option.bind_eq_some_iff.1 h
  obtain ⟨logLevel, hlogging, h⟩ := Option.bind_eq_some_iff.1 h
  cases h
  rw [eq_of_scan hscan, eq_of_rules hrules, eq_of_output houtput, eq_of_logging hlogging]

def inDialect (d : Dialect) (document : Option Value) : List (Dialect × Value) :=
  document.toList.map (d, ·)

/-- The documents that a text may stand for, by the extension of its file. -/
def documents (extension : Option String) (text : List Char) : List (Dialect × Value) :=
  match extension with
  | some "toml" => inDialect Toml.dialect (Toml.read? text)
  | some "json" => inDialect Json.dialect (Json.read? text)
  | some _ => []
  | none => inDialect Toml.dialect (Toml.read? text) ++ inDialect Json.dialect (Json.read? text)

/-- What a document gives, if settings can be read from it. -/
def ofReadable? (x : Dialect × Value) : Option Layer :=
  (Settings.ofValue? x.1 x.2).map fun _ => ofDocument x.1 x.2

/-- What the first readable document gives. -/
def ofText? (extension : Option String) (text : List Char) : Option Layer :=
  (documents extension text).findSome? ofReadable?

theorem map_findSome?_inDialect (d : Dialect) (document : Option Value) :
    ((inDialect d document).findSome? ofReadable?).map settings =
      document.bind (Settings.ofValue? d) := by
  cases document with
  | none => rfl
  | some v =>
      simp only [inDialect, Option.toList_some, List.map_cons, List.map_nil,
        List.findSome?_singleton, ofReadable?, Option.bind_some]
      cases h : Settings.ofValue? d v with
      | none => rfl
      | some s => exact congrArg some (eq_of_ofValue? h).symm

theorem toOption_ofToml (text : List Char) :
    (Settings.ofToml text).toOption = (Toml.read? text).bind (Settings.ofValue? Toml.dialect) := by
  unfold Settings.ofToml
  cases (Toml.read? text).bind (Settings.ofValue? Toml.dialect) <;> rfl

theorem toOption_ofJson (text : List Char) :
    (Settings.ofJson text).toOption = (Json.read? text).bind (Settings.ofValue? Json.dialect) := by
  unfold Settings.ofJson
  cases (Json.read? text).bind (Settings.ofValue? Json.dialect) <;> rfl

theorem toOption_parse (extension : Option String) (text : List Char) :
    (Settings.parse extension text).toOption = (ofText? extension text).map settings := by
  unfold Settings.parse ofText? documents
  split
  · exact (toOption_ofToml text).trans (map_findSome?_inDialect _ _).symm
  · exact (toOption_ofJson text).trans (map_findSome?_inDialect _ _).symm
  · simp [Except.toOption, *]
  · rw [List.findSome?_append, Option.map_or, map_findSome?_inDialect, map_findSome?_inDialect,
      ← toOption_ofToml, ← toOption_ofJson]
    cases Settings.ofToml text <;> simp [Except.toOption]

/-- What a file gives. -/
def ofFile? (fs : FileSystem) (path : String) : Option Layer :=
  match fs.readText path with
  | .ok text => ofText? (Path.extension? path) text
  | .error _ => none

theorem toOption_load (fs : FileSystem) (path : String) :
    (Settings.load fs path).toOption = (ofFile? fs path).map settings := by
  unfold Settings.load ofFile?
  cases fs.readText path with
  | error fault => rfl
  | ok text => exact toOption_parse _ text

end Layer
end ExtensionLint
