import ExtensionLint.Rendering
import ExtensionLint.Text.Typed

/-!
The command line: which words are options, which values they have, and why a command line is refused.
A value is looked at when the next option or operand comes, or the line ends, so that of two faults
the earlier one is told, except that a word that nothing can be made of is told at once.
-/
namespace ExtensionLint

/-- Options that stand alone. -/
inductive Flag
  | verbose
  | quiet
  | help
  | version
  deriving DecidableEq, Repr

/-- What has a value: the path, which is no option, and the options that take one. -/
inductive Parameter
  | path
  | rules
  | threads
  | format
  | config
  | included
  | excluded
  | maxDepth
  | grammarDir
  | encodings
  | constants
  | timeout
  | logLevel
  deriving DecidableEq, Repr

inductive CommandOption
  | flag (f : Flag)
  | parameter (p : Parameter)
  deriving DecidableEq, Repr

/-- Why a command line does not lead to a run. -/
inductive Refusal
  | unknownArgument
  /-- A value is missing, or none of the allowed ones. -/
  | invalidValue
  | malformedValue
  /-- Options exclude each other, or one is given twice. -/
  | conflict
  | missingPath
  | needlessValue
  | help
  | version
  deriving DecidableEq, Repr

/-- The arguments of a run. Options that are not given are `none` or empty. -/
structure Arguments where
  path : String
  rules : Option (List String) := none
  threads : Option Nat := none
  verbose : Bool := false
  quiet : Bool := false
  format : Option OutputFormat := none
  config : Option String := none
  included : List String := []
  excluded : List String := []
  maxDepth : Option Nat := none
  grammarDir : Option String := none
  encodings : Option (List String) := none
  constants : Option (List String) := none
  timeout : Option Nat := none
  logLevel : Option String := none
  deriving DecidableEq, Repr

namespace CommandOption

def longNames : List (String × CommandOption) := [
  ("rules", .parameter .rules), ("threads", .parameter .threads), ("verbose", .flag .verbose),
  ("quiet", .flag .quiet), ("format", .parameter .format), ("config", .parameter .config),
  ("include", .parameter .included), ("exclude", .parameter .excluded),
  ("max-depth", .parameter .maxDepth), ("grammar-dir", .parameter .grammarDir),
  ("encodings", .parameter .encodings), ("constants", .parameter .constants),
  ("timeout", .parameter .timeout), ("log-level", .parameter .logLevel), ("help", .flag .help),
  ("version", .flag .version)]

def letters : List (Char × CommandOption) := [
  ('r', .parameter .rules), ('t', .parameter .threads), ('v', .flag .verbose), ('q', .flag .quiet),
  ('f', .parameter .format), ('c', .parameter .config), ('h', .flag .help), ('V', .flag .version)]

end CommandOption

namespace Arguments

/-- A command line that has been read in part. -/
structure Draft where
  arguments : Arguments := { path := "" }
  hasPath : Bool := false
  /-- What was given last and has not been looked at, with its value unless that is still to come. -/
  pending : Option (Parameter × Option String) := none
  operandsOnly : Bool := false

/-- A value for what may be given only once. -/
def once (before : Option α) (value : Except Refusal α) : Except Refusal (Option α) :=
  if before.isSome then .error .conflict else value.map some

def number (value : String) : Except Refusal Nat :=
  match Text.natural? value with
  | some n => .ok n
  | none => .error .malformedValue

def location (value : String) : Except Refusal String :=
  if value = "" then .error .invalidValue else .ok value

def formatOf (value : String) : Except Refusal OutputFormat :=
  match OutputFormat.ofLabel? value with
  | some f => .ok f
  | none => .error .invalidValue

def itemsOf (value : String) : Except Refusal (List String) := .ok (Text.listItems value)

def set (a : Arguments) (value : String) : Parameter → Except Refusal Arguments
  | .path => do return { a with path := ← location value }
  | .rules => do return { a with rules := ← once a.rules (itemsOf value) }
  | .threads => do return { a with threads := ← once a.threads (number value) }
  | .format => do return { a with format := ← once a.format (formatOf value) }
  | .config => do return { a with config := ← once a.config (location value) }
  | .included => .ok { a with included := a.included ++ [value] }
  | .excluded => .ok { a with excluded := a.excluded ++ [value] }
  | .maxDepth => do return { a with maxDepth := ← once a.maxDepth (number value) }
  | .grammarDir => do return { a with grammarDir := ← once a.grammarDir (location value) }
  | .encodings => do return { a with encodings := ← once a.encodings (itemsOf value) }
  | .constants => do return { a with constants := ← once a.constants (itemsOf value) }
  | .timeout => do return { a with timeout := ← once a.timeout (number value) }
  | .logLevel => do return { a with logLevel := ← once a.logLevel (.ok value) }

def raise (a : Arguments) : Flag → Except Refusal Arguments
  | .verbose => if a.verbose then .error .conflict else .ok { a with verbose := true }
  | .quiet => if a.quiet then .error .conflict else .ok { a with quiet := true }
  | .help => .error .help
  | .version => .error .version

namespace Draft

/-- Looks at what is pending. -/
def settle (d : Draft) : Except Refusal Draft :=
  match d.pending with
  | none => .ok d
  | some (_, none) => .error .invalidValue
  | some (p, some value) =>
    (d.arguments.set value p).map fun arguments => { d with arguments, pending := none }

def flag (d : Draft) (f : Flag) : Except Refusal Draft := do
  let d ← d.settle
  return { d with arguments := ← d.arguments.raise f }

/-- Takes an option with the value in the same word. -/
def give (d : Draft) (p : Parameter) (value : String) : Except Refusal Draft := do
  let d ← d.settle
  return { d with arguments := ← d.arguments.set value p }

/-- Takes an option of which the value is to come. -/
def await (d : Draft) (p : Parameter) : Except Refusal Draft := do
  let d ← d.settle
  return { d with pending := some (p, none) }

def operand (d : Draft) (word : String) : Except Refusal Draft :=
  if d.hasPath then .error .unknownArgument
  else do
    let d ← d.settle
    return { d with hasPath := true, pending := some (.path, some word) }

/-- Takes an option by its long name, with the value after the first equals sign. -/
def long (d : Draft) (word : List Char) : Except Refusal Draft :=
  let (name, rest) := word.span (· != '=')
  match CommandOption.longNames.lookup (String.ofList name), rest with
  | none, _ => .error .unknownArgument
  | some (.flag f), [] => d.flag f
  | some (.flag _), _ => .error .needlessValue
  | some (.parameter p), _ :: value => d.give p (String.ofList value)
  | some (.parameter p), [] => d.await p

/-- Takes options by their letters. The first one that takes a value has the rest of the word as its
value, after an equals sign if there is one. -/
def short (d : Draft) : (letters : List Char) → Except Refusal Draft
  | [] => .ok d
  | c :: rest =>
    match CommandOption.letters.lookup c, rest with
    | none, _ => .error .unknownArgument
    | some (.flag f), _ => do short (← d.flag f) rest
    | some (.parameter p), [] => d.await p
    | some (.parameter p), '=' :: value => d.give p (String.ofList value)
    | some (.parameter p), value => d.give p (String.ofList value)

def plain (d : Draft) (word : String) : Except Refusal Draft :=
  match d.pending with
  | some (p, none) => .ok { d with pending := some (p, some word) }
  | _ => d.operand word

def word (d : Draft) (w : String) : Except Refusal Draft :=
  if d.operandsOnly then d.operand w
  else match w.toList with
    | ['-', '-'] => .ok { d with operandsOnly := true }
    | '-' :: '-' :: name => d.long name
    | '-' :: c :: letters => d.short (c :: letters)
    | _ => d.plain w

def finish (d : Draft) : Except Refusal Arguments := do
  let d ← d.settle
  if d.arguments.quiet ∧ d.arguments.verbose then .error .conflict
  else if d.hasPath then .ok d.arguments
  else .error .missingPath

end Draft

/-- Reads a command line, without the name of the program. -/
def parse (words : List String) : Except Refusal Arguments :=
  (words.foldlM Draft.word {}).bind Draft.finish

def verbosity (a : Arguments) : Verbosity :=
  if a.quiet then .quiet else if a.verbose then .verbose else .normal

end Arguments
end ExtensionLint
