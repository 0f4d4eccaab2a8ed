/-!
Grammars of manifests. A grammar has rulesets: each says which children an element may have and how
often, and which attributes. A child that a ruleset declares is governed by the ruleset that its full
key names.
-/
namespace ExtensionLint

/-- How often a declared child may occur. -/
inductive ChildMode
  /-- Exactly once. -/
  | requiredSingle
  /-- Once; to leave it out is bad style, to repeat it worth a warning. -/
  | recommendedSingle
  /-- At most once. -/
  | optionalSingle
  | multiple
  deriving DecidableEq, Repr

namespace ChildMode

def symbol : ChildMode → String
  | requiredSingle => "!"
  | recommendedSingle => "="
  | optionalSingle => "?"
  | multiple => "*"

def all : List ChildMode := [requiredSingle, recommendedSingle, optionalSingle, multiple]

def ofSymbol? (s : String) : Option ChildMode := all.find? (·.symbol = s)

theorem ofSymbol?_symbol (m : ChildMode) : ofSymbol? m.symbol = some m := by cases m <;> decide

end ChildMode

/-- The key of a declared child: the name of the element, with a context where elements of one name
follow different rules. -/
structure ChildKey where
  context : Option String := none
  element : String
  deriving DecidableEq, Repr

namespace ChildKey

/-- The key in full, which names the ruleset for the child. -/
def ruleset (k : ChildKey) : String :=
  match k.context with
  | some context => context ++ ":" ++ k.element
  | none => k.element

/-- Reads a key: what stands before the first colon is the context. Neither part may be empty. -/
def parse? (raw : String) : Option ChildKey :=
  match raw.toList.span (· != ':') with
  | ([], _) => none
  | (element, []) => some ⟨none, String.ofList element⟩
  | (_, [_]) => none
  | (context, _ :: element) => some ⟨some (String.ofList context), String.ofList element⟩

end ChildKey

structure ChildRule where
  key : ChildKey
  mode : ChildMode
  deriving DecidableEq, Repr

inductive ChildRules
  /-- Any children, which are not looked into. -/
  | wildcard
  /-- The declared ones, in the order of the document. -/
  | declared (rules : List ChildRule)
  deriving DecidableEq, Repr

/-- The rule for an element; of several the last one counts. -/
def ChildRules.resolve? : ChildRules → (element : String) → Option ChildRule
  | wildcard, _ => none
  | declared rules, element => rules.reverse.find? (·.key.element = element)

inductive AttributeRules
  | any
  | allowed (names : List String)
  deriving DecidableEq, Repr

def AttributeRules.allows : AttributeRules → (name : String) → Bool
  | any, _ => true
  | allowed names, name => names.contains name

structure Grammar where
  children : List (String × ChildRules) := []
  attributes : List (String × AttributeRules) := []
  deriving DecidableEq, Repr

namespace Grammar

def childRules? (g : Grammar) (ruleset : String) : Option ChildRules := g.children.lookup ruleset

def attributeRules? (g : Grammar) (ruleset : String) : Option AttributeRules :=
  g.attributes.lookup ruleset

/-- The ruleset for a child, if the parent's ruleset declares it. -/
def resolve? (g : Grammar) (ruleset element : String) : Option String :=
  ((g.childRules? ruleset).bind (·.resolve? element)).map (·.key.ruleset)

def size (g : Grammar) : Nat := g.children.length

end Grammar
end ExtensionLint
