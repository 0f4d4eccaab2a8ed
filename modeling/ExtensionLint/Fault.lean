import ExtensionLint.Text.Quoted

/-!
What can go wrong while a package is checked, as opposed to what can be wrong with the package. Each
fault has a message, and a description that shows its cause and fields.
-/
namespace ExtensionLint

open Text (quoted)

/-- The kinds of failure that a fault of the outside world is filed under. -/
inductive AccessKind
  | notFound
  | permissionDenied
  | notADirectory
  | isADirectory
  | tooManyLinks
  | invalidName
  | invalidInput
  | invalidData
  | other (name : String)
  deriving DecidableEq, Repr

def AccessKind.name : AccessKind → String
  | notFound => "NotFound"
  | permissionDenied => "PermissionDenied"
  | notADirectory => "NotADirectory"
  | isADirectory => "IsADirectory"
  | tooManyLinks => "FilesystemLoop"
  | invalidName => "InvalidFilename"
  | invalidInput => "InvalidInput"
  | invalidData => "InvalidData"
  | other name => name

inductive AccessFault
  | missing
  /-- A component before the last is no directory. -/
  | notADirectory
  | isADirectory
  /-- Symbolic links lead on without end. -/
  | tooManyLinks
  | nameTooLong
  /-- The path holds the character that would end it. -/
  | zeroCharacter
  | notText
  /-- A failure described by whoever met it. -/
  | reported (kind : AccessKind) (message : String)
  deriving DecidableEq, Repr

namespace AccessFault

/-- How a fault is worded, by who finds it. -/
inductive Wording
  /-- The operating system, which numbers its failures. -/
  | system (code : Nat) (kind : AccessKind) (text : String)
  /-- The checks before and after it is asked. -/
  | plain (kind : AccessKind) (text : String)
  | reported (kind : AccessKind) (text : String)

def wording : AccessFault → Wording
  | missing => .system 2 .notFound "No such file or directory"
  | notADirectory => .system 20 .notADirectory "Not a directory"
  | isADirectory => .system 21 .isADirectory "Is a directory"
  | nameTooLong => .system 36 .invalidName "File name too long"
  | tooManyLinks => .system 40 .tooManyLinks "Too many levels of symbolic links"
  | zeroCharacter => .plain .invalidInput "file name contained an unexpected NUL byte"
  | notText => .plain .invalidData "stream did not contain valid UTF-8"
  | reported kind text => .reported kind text

/-- One line for the user. -/
def message (f : AccessFault) : String :=
  match f.wording with
  | .system code _ text => s!"{text} (os error {code})"
  | .plain _ text => text
  | .reported _ text => text

/-- The fault with its fields. -/
def describe (f : AccessFault) : String :=
  match f.wording with
  | .system code kind text =>
    s!"Os \x7b code: {code}, kind: {kind.name}, message: {quoted text} \x7d"
  | .plain kind text => s!"Error \x7b kind: {kind.name}, message: {quoted text} \x7d"
  | .reported kind text => s!"Custom \x7b kind: {kind.name}, error: {quoted text} \x7d"

end AccessFault

inductive GrammarFault
  | unreadable (path details : String)
  | malformed (document details : String)
  /-- A child mode is none of the four symbols. -/
  | unknownMode (ruleset child mode : String)
  /-- The document breaks a rule of its own. -/
  | invalid (document details : String)
  deriving DecidableEq, Repr

namespace GrammarFault

def message : GrammarFault → String
  | unreadable path details => s!"Failed to read grammar {path}: {details}"
  | malformed document details => s!"Malformed grammar document {document}: {details}"
  | unknownMode ruleset child mode =>
    s!"Unknown child mode '{mode}' for <{child}> in ruleset '{ruleset}'"
  | invalid document details => s!"Invalid grammar document {document}: {details}"

def describe : GrammarFault → String
  | unreadable path details =>
    s!"Io \x7b path: {quoted path}, details: {quoted details} \x7d"
  | malformed document details =>
    s!"Json \x7b name: {quoted document}, details: {quoted details} \x7d"
  | unknownMode ruleset child mode =>
    s!"UnknownMode \x7b ruleset: {quoted ruleset}, child: {quoted child}, mode: {quoted mode} \x7d"
  | invalid document details =>
    s!"InvalidDocument \x7b name: {quoted document}, details: {quoted details} \x7d"

end GrammarFault

inductive SettingsFault
  | access (fault : AccessFault)
  | toml (details : String)
  | json (details : String)
  /-- The settings contradict each other or lie out of range. -/
  | invalid (details : String)
  | environment (details : String)
  | unsupportedFormat (extension : String)
  deriving DecidableEq, Repr

namespace SettingsFault

def message : SettingsFault → String
  | access fault => s!"IO error: {fault.message}"
  | toml details => s!"TOML parsing error: {details}"
  | json details => s!"JSON parsing error: {details}"
  | invalid details => s!"Configuration validation error: {details}"
  | environment details => s!"Environment variable error: {details}"
  | unsupportedFormat extension => s!"Unsupported configuration file format: {extension}"

def describe : SettingsFault → String
  | access fault => s!"Io({fault.describe})"
  | toml details => s!"TomlParsing({quoted details})"
  | json details => s!"JsonParsing({quoted details})"
  | invalid details => s!"Validation({quoted details})"
  | environment details => s!"Environment({quoted details})"
  | unsupportedFormat extension => s!"UnsupportedFormat({quoted extension})"

def help : SettingsFault → String
  | access _ => "Check that the configuration file exists and is readable"
  | toml _ => "Check the configuration file syntax (TOML/JSON format expected)"
  | json _ => "Check the configuration file syntax (TOML/JSON format expected)"
  | unsupportedFormat _ => "Use a .toml or .json configuration file"
  | environment _ => "Fix or unset the EXTCHECK_* environment variable named above"
  | invalid _ => "Fix the value in the configuration file, environment or command line"

end SettingsFault

inductive CheckFault
  | access (fault : AccessFault)
  | settings (details : String)
  | grammar (fault : GrammarFault)
  | traversal (path reason : String)
  | timeout (file : String) (milliseconds : Nat)
  | aborted (details : String)
  | unknownRule (name : String)
  deriving DecidableEq, Repr

namespace CheckFault

/-- A fault of the settings met during a check. -/
def ofSettings (f : SettingsFault) : CheckFault := settings f.message

def message : CheckFault → String
  | access fault => s!"IO error: {fault.message}"
  | settings details => s!"Configuration error: {details}"
  | grammar fault => s!"Grammar error: {fault.message}"
  | traversal path reason => s!"File system traversal error: {path} - {reason}"
  | timeout file milliseconds => s!"Check timed out: {file} after {milliseconds}ms"
  | aborted details => s!"Concurrent operation error: {details}"
  | unknownRule name => s!"Unknown rule: {name}"

def describe : CheckFault → String
  | access fault => s!"Io({fault.describe})"
  | settings details => s!"Config({quoted details})"
  | grammar fault => s!"Grammar({fault.describe})"
  | traversal path reason =>
    s!"FileSystemTraversal \x7b path: {quoted path}, reason: {quoted reason} \x7d"
  | timeout file milliseconds =>
    s!"Timeout \x7b file: {quoted file}, timeout_ms: {milliseconds} \x7d"
  | aborted details => s!"Concurrency \x7b details: {quoted details} \x7d"
  | unknownRule name => s!"UnknownRule({quoted name})"

def suggestion? : CheckFault → Option String
  | traversal path _ => some s!"Check that {path} exists and is readable"
  | timeout _ milliseconds =>
    some s!"Raise --timeout (currently {milliseconds}ms) or exclude the file"
  | grammar (.unknownMode ..) => some "Child modes must be one of '!', '=', '?' or '*'"
  | grammar _ =>
    some "Check the grammar directory or drop --grammar-dir to use the bundled grammars"
  | unknownRule _ => some "Known rules are manifest, encoding and jexec"
  | _ => none

/-- Whether the fault is worth a line even when only errors are shown. -/
def isCritical : CheckFault → Bool
  | settings _ => true
  | grammar _ => true
  | traversal .. => true
  | unknownRule _ => true
  | _ => false

end CheckFault
end ExtensionLint
