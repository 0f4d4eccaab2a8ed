import ExtensionLint.Manifest.Hooks
import ExtensionLint.Manifest.NodeCheck

/-!
Validation of a whole manifest. From the root down, each element that the rulesets reach is checked
against the ruleset that its place determines.
-/
namespace ExtensionLint.Manifest

open Markup

def rootRuleset : String := "extension"

mutual
/-- Adds to a bucket what is wrong with an element and with all that its ruleset leads to, in document
order. -/
def validate (g : Grammar) (h : Hooks) (ruleset : String) : Element → Bucket → Bucket
  | .node name attributes children text, b =>
    let e : Element := .node name attributes children text
    let b := b.extend (attributeFindings g ruleset e)
    let b := b.extend (childFindings g ruleset e)
    let b := b.extend (h.run e)
    validateChildren g h ruleset children b

def validateChildren (g : Grammar) (h : Hooks) (ruleset : String) : List Element → Bucket → Bucket
  | [], b => b
  | c :: cs, b =>
    match g.resolve? ruleset c.name with
    | some inner => validateChildren g h ruleset cs (validate g h inner c b)
    | none => validateChildren g h ruleset cs b
end

def validateDocument (g : Grammar) (h : Hooks) (root : Element) : Bucket :=
  validate g h rootRuleset root {}

end ExtensionLint.Manifest
