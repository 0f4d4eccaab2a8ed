import ExtensionLint.Data.Toml
import ExtensionLint.Report.Document
import ExtensionLint.Settings

/-!
Settings as documents, in either of two formats. A document may leave out any field, which then has its
default; fields of other names are passed over.
-/
namespace ExtensionLint

open Data

def numberOrNull (n : Option Nat) : Value := (n.map fun n => Value.integer n).getD .null

def textList (texts : List String) : Value := .list (texts.map Value.text)

def texts? : Value → Option (List String) := Value.listOf? Value.text?

def ScanSettings.toValue (s : ScanSettings) : Value :=
  .table [("threads", numberOrNull s.threads), ("timeout_seconds", .integer s.timeout),
    ("include_patterns", textList s.included), ("exclude_patterns", textList s.excluded),
    ("max_depth", numberOrNull s.maxDepth)]

def ScanSettings.ofValue? (d : Dialect) (v : Value) : Option ScanSettings := do
  let names := ["threads", "timeout_seconds", "include_patterns", "exclude_patterns", "max_depth"]
  match ← v.openFields? d names with
  | [threads, timeout, included, excluded, maxDepth] =>
    return {
      threads := ← optionalField? Value.natural? threads
      timeout := ← Value.orElse 30 Value.natural? timeout
      included := ← Value.orElse [] texts? included
      excluded := ← Value.orElse [] texts? excluded
      maxDepth := ← optionalField? Value.natural? maxDepth }
  | _ => none

def RuleChoice.toValue (r : RuleChoice) : Value :=
  .table [("enabled", textList r.enabled), ("encodings", textList r.encodings),
    ("constants", textList r.constants),
    ("grammar_dir", (r.grammarDir.map Value.text).getD .null)]

def RuleChoice.ofValue? (d : Dialect) (v : Value) : Option RuleChoice := do
  let usual : RuleChoice := {}
  match ← v.openFields? d ["enabled", "encodings", "constants", "grammar_dir"] with
  | [enabled, encodings, constants, grammarDir] =>
    return {
      enabled := ← Value.orElse usual.enabled texts? enabled
      encodings := ← Value.orElse usual.encodings texts? encodings
      constants := ← Value.orElse usual.constants texts? constants
      grammarDir := ← optionalField? Value.text? grammarDir }
  | _ => none

def OutputFormat.ofValue? (d : Dialect) (v : Value) : Option OutputFormat :=
  (v.choice? d (OutputFormat.all.map OutputFormat.label)).bind OutputFormat.ofLabel?

def OutputSettings.toValue (o : OutputSettings) : Value :=
  .table [("format", .text o.format.label), ("verbose", .bool o.verbose), ("quiet", .bool o.quiet)]

def OutputSettings.ofValue? (d : Dialect) (v : Value) : Option OutputSettings := do
  match ← v.openFields? d ["format", "verbose", "quiet"] with
  | [format, verbose, quiet] =>
    return {
      format := ← Value.orElse .human (OutputFormat.ofValue? d) format
      verbose := ← Value.orElse false Value.bool? verbose
      quiet := ← Value.orElse false Value.bool? quiet }
  | _ => none

namespace Settings

def logLevelOf? (d : Dialect) (v : Value) : Option String := do
  match ← v.openFields? d ["level"] with
  | [level] => Value.orElse "warn" Value.text? level
  | _ => none

def toValue (s : Settings) : Value :=
  .table [("scan", s.scan.toValue), ("rules", s.rules.toValue), ("output", s.output.toValue),
    ("logging", .table [("level", .text s.logLevel)])]

def ofValue? (d : Dialect) (v : Value) : Option Settings := do
  match ← v.openFields? d ["scan", "rules", "output", "logging"] with
  | [scan, rules, output, logging] =>
    return {
      scan := ← Value.orElse {} (ScanSettings.ofValue? d) scan
      rules := ← Value.orElse {} (RuleChoice.ofValue? d) rules
      output := ← Value.orElse {} (OutputSettings.ofValue? d) output
      logLevel := ← Value.orElse "warn" (logLevelOf? d) logging }
  | _ => none

/-- What is told of a document in which no settings can be read. -/
def unreadable : String := "the document does not describe settings"

def ofToml (text : List Char) : Except SettingsFault Settings :=
  match (Toml.read? text).bind (ofValue? Toml.dialect) with
  | some s => .ok s
  | none => .error (.toml unreadable)

def ofJson (text : List Char) : Except SettingsFault Settings :=
  match (Json.read? text).bind (ofValue? Json.dialect) with
  | some s => .ok s
  | none => .error (.json unreadable)

/-- Reads settings from a document in the format that its extension tells; without an extension both
formats are tried. -/
def parse (extension : Option String) (text : List Char) : Except SettingsFault Settings :=
  match extension with
  | some "toml" => ofToml text
  | some "json" => ofJson text
  | some other => .error (.unsupportedFormat other)
  | none =>
    match ofToml text with
    | .ok s => .ok s
    | .error _ => ofJson text

def load (fs : FileSystem) (path : String) : Except SettingsFault Settings :=
  match fs.readText path with
  | .ok text => parse (Path.extension? path) text
  | .error fault => .error (.access fault)

/-- The names of settings files, the most preferred first. -/
def fileNames : List String :=
  ["extcheck.toml", "extcheck.json", ".extcheck.toml", ".extcheck.json"]

def fileIn? (fs : FileSystem) (directory : String) : Option String :=
  (fileNames.map (Path.join directory)).find? fs.exists?

def loadFrom (fs : FileSystem) (directory : String) : Except SettingsFault (Option Settings) :=
  match fileIn? fs directory with
  | some path => (load fs path).map some
  | none => .ok none

end Settings
end ExtensionLint
