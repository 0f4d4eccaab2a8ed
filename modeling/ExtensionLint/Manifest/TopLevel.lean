import ExtensionLint.Manifest.ExtensionType
import ExtensionLint.Manifest.Finding
import ExtensionLint.Markup.Element

/-! Checks of the root of a manifest that depend on the type of the extension. -/
namespace ExtensionLint.Manifest

open Markup

def clients : List String := ["site", "administrator"]

def clientFinding? (e : Element) : Option Diagnostic :=
  match e.attr? "client" with
  | none => some (.error (.missingAttribute e.name "client"))
  | some client =>
    if clients.contains client then none
    else some (.error (.unknownAttributeValue e.name "client" client))

/-- What is wrong with an item of a package. A package cannot hold packages. -/
def packageItemFinding? (item : Element) : Option Diagnostic :=
  let value := (item.attr? "type").getD ""
  match ExtensionType.ofLabel? value with
  | none => some (.error (.unknownType value))
  | some .package => some (.error (.unknownType value))
  | some .plugin =>
    if (item.attr? "group").isSome then none
    else some (.error (.missingAttribute item.name "group"))
  | some type => if type.requiresClient then clientFinding? item else none

/-- The items of a package: the files in the first list of files. -/
def packageItems (root : Element) : List Element :=
  match root.child? "files" with
  | some files => files.childrenNamed "file"
  | none => []

/-- Whether updates of the extension work. -/
def methodFinding? (root : Element) : Option Diagnostic :=
  if root.attr? "method" = some "upgrade" then none else some (.warning .missingMethodUpgrade)

def topLevelFindings (type : ExtensionType) (root : Element) : List Diagnostic :=
  (methodFinding? root).toList ++
    match type with
    | .package => (packageItems root).filterMap packageItemFinding?
    | type => if type.requiresClient then (clientFinding? root).toList else []

end ExtensionLint.Manifest
