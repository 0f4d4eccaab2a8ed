import ExtensionLint.Manifest.Finding
import ExtensionLint.Manifest.Grammar
import ExtensionLint.Markup.Element

/-! Checks of one element against a ruleset: its attributes, and its children by name and number. -/
namespace ExtensionLint.Manifest

open Markup

/-- The attributes that the ruleset does not allow. Where it says nothing, none is allowed. -/
def attributeFindings (g : Grammar) (ruleset : String) (e : Element) : List Diagnostic :=
  let allows := match g.attributeRules? ruleset with
    | some rules => rules.allows
    | none => fun _ => false
  let unknown := e.attributes.filter fun (name, _) => !allows name
  unknown.map fun (name, _) => .notice (.unknownAttribute e.name name)

/-- What is wrong with the number of children that a rule declares. -/
def multiplicityFinding? (e : Element) (rule : ChildRule) : Option Diagnostic :=
  let child := rule.key.element
  match rule.mode, e.count child with
  | .requiredSingle, 0 => some (.error (.missingRequired e.name child))
  | .requiredSingle, 1 => none
  | .requiredSingle, _ => some (.error (.multipleFound e.name child))
  | .recommendedSingle, 0 => some (.notice (.missingOptional e.name child))
  | .recommendedSingle, 1 => none
  | .recommendedSingle, _ => some (.warning (.multipleFound e.name child))
  | _, _ => none

/-- The names of the children in the order in which they first appear. -/
def childNames (e : Element) : List String :=
  e.children.foldl (fun names c => if names.contains c.name then names else names ++ [c.name]) []

/-- What is wrong with the children of one name: no rule covers them, or they should be one. -/
def nameFinding? (rules : ChildRules) (e : Element) (child : String) : Option Diagnostic :=
  match rules.resolve? child with
  | none => some (.notice (.unknownChild e.name child))
  | some rule =>
    if rule.mode = .optionalSingle ∧ 1 < e.count child then
      some (.error (.multipleFound e.name child))
    else none

def emptyFindings (e : Element) : List Diagnostic :=
  (e.children.filter (·.isEmpty)).map fun c => .notice (.emptyChild c.name)

def childFindings (g : Grammar) (ruleset : String) (e : Element) : List Diagnostic :=
  match g.childRules? ruleset with
  | none => if e.children.isEmpty then [] else [.notice (.unknownChildren e.name)]
  | some .wildcard => []
  | some (.declared rules) =>
    rules.filterMap (multiplicityFinding? e) ++
      (childNames e).filterMap (nameFinding? (.declared rules) e) ++ emptyFindings e

end ExtensionLint.Manifest
