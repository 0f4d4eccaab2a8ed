import ExtensionLint.Report
import ExtensionLint.Script.Declarations
import ExtensionLint.Text.Lines

/-!
Guards against direct access: a script stops by itself unless the application that includes it has
defined a constant. A script needs no guard if it has no code or only declares.
-/
namespace ExtensionLint.Script.Guard

open Text

def defaultConstants : List String :=
  ["_JEXEC", "JPATH_PLATFORM", "JPATH_BASE", "AKEEBAENGINE", "WPINC"]

/-- The constants to look for: trimmed, and without the blank ones. -/
def kept (constants : List String) : List String :=
  (constants.map trimmed).filter fun c => c ≠ ""

/-- Whether a line holds `defined` in any case, then one of the constants, then `die` in any case,
going by the first place of each. -/
def isGuardLine (constants : List String) (line : List Char) : Bool :=
  let lower := lowerAscii line
  match index? "defined".toList lower, index? "die".toList lower with
  | some defined, some die => constants.any fun c =>
    match index? c.toList line with
    | some place => defined < place && place < die
    | none => false
  | _, _ => false

/-- Whether a line holds nothing but blanks or a tag. -/
def isBareLine (line : List Char) : Bool :=
  let text := trim line
  text.isEmpty || text == "<?php".toList || text == "?>".toList

def isCommentLine (line : List Char) : Bool :=
  let text := trim line
  startsWith text ['/'] || startsWith text ['*']

/-- Whether a script has a guard line, or no code at all. -/
def isGuarded (constants : List String) (source : List Char) : Bool :=
  let telling := (plainLines source).filter fun line => !isBareLine line
  telling.any (isGuardLine constants) || telling.all isCommentLine

/-- The entry for a script without a guard, which shows the first of the constants. -/
def missing (constants : List String) (path : String) : Entry where
  file := path
  severity := .error
  message :=
    let shown := (constants.head?.or defaultConstants.head?).getD ""
    s!"Direct access guard not found, expected defined('{shown}') or die"

/-- The entries for a script; `constants` are the ones kept. -/
def check (constants : List String) (path : String) (source : List Char) :
    Except ScriptFault (List Entry) :=
  if isGuarded constants source then .ok []
  else (isDeclarationOnly source).map fun exempt => if exempt then [] else [missing constants path]

end ExtensionLint.Script.Guard
