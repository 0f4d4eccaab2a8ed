import ExtensionLint.Data.Entries
import ExtensionLint.Data.Json
import ExtensionLint.Fault
import ExtensionLint.Manifest.Grammar

/-!
Grammar documents. A document has two parts: `nodes` maps a ruleset to the modes of its children by
key, `attributes` maps a ruleset to a list of attribute names. A star stands for any children, or at
the head of a list for any attributes.
-/
namespace ExtensionLint.Grammar

open Data

/-- How deep the values of a document may be nested. -/
def deepestValue : Nat := 127

mutual
def depth : Value → Nat
  | .list vs => depthOfItems vs + 1
  | .table es => depthOfEntries es + 1
  | _ => 0

def depthOfItems : List Value → Nat
  | [] => 0
  | v :: vs => max (depth v) (depthOfItems vs)

def depthOfEntries : List (String × Value) → Nat
  | [] => 0
  | (_, v) :: es => max (depth v) (depthOfEntries es)
end

mutual
/-- Whether a value can be read with all that it holds. -/
def isReadable : Value → Bool
  | .unreadable => false
  | .list vs => areItemsReadable vs
  | .table es => areEntriesReadable es
  | _ => true

def areItemsReadable : List Value → Bool
  | [] => true
  | v :: vs => isReadable v && areItemsReadable vs

def areEntriesReadable : List (String × Value) → Bool
  | [] => true
  | (_, v) :: es => isReadable v && areEntriesReadable es
end

def entries? : Value → Option (List (String × Value))
  | .table es => some es
  | _ => none

/-- The entries of a table of readable values, which lie two levels below the top of a document. -/
def modes? (v : Value) : Option (List (String × Value)) :=
  if isReadable v ∧ depth v + 2 ≤ deepestValue then (entries? v).map settled else none

def table? (read : Value → Option α) (v : Value) : Option (List (String × α)) := do
  let es ← entries? v
  let rs ← es.mapM fun (k, v) => (read v).map fun r => (k, r)
  return settled rs

/-- The two parts of a document before their contents are judged. -/
structure Outline where
  nodes : List (String × List (String × Value))
  attributes : List (String × List String)

/-- Reads the two parts of a document; either may be left out. -/
def Outline.ofValue? (v : Value) : Option Outline := do
  match ← v.openFields? Json.dialect ["nodes", "attributes"] with
  | [nodes, attributes] =>
    let nodes ← Value.orElse [] (table? modes?) nodes
    let attributes ← Value.orElse [] (table? (Value.listOf? Value.text?)) attributes
    return ⟨nodes, attributes⟩
  | _ => none

def wildcard : String := "*"

/-- Reads the rule for a child; a star yields none. -/
def childRuleOf (document ruleset key : String) (mode : Value) :
    Except GrammarFault (Option ChildRule) := do
  let .text symbol := mode
    | .error (.invalid document s!"mode of '{key}' in ruleset '{ruleset}' is not a string")
  let some mode := ChildMode.ofSymbol? symbol | .error (.unknownMode ruleset key symbol)
  if key = wildcard then return none
  match ChildKey.parse? key with
  | some k => return some ⟨k, mode⟩
  | none => .error (.invalid document s!"malformed child key '{key}' in ruleset '{ruleset}'")

/-- The rules that the entries of a ruleset make: a star makes all others void. -/
def joined (rules : List (Option ChildRule)) : ChildRules :=
  if rules.contains none then .wildcard else .declared (rules.filterMap id)

/-- Reads the rules of a ruleset; without entries there are none. -/
def childRulesOf (document ruleset : String) (entries : List (String × Value)) :
    Except GrammarFault (Option ChildRules) := do
  let rules ← entries.mapM fun (key, mode) => childRuleOf document ruleset key mode
  return if rules.isEmpty then none else some (joined rules)

/-- The attributes that a list allows; an empty list says nothing. -/
def attributeRulesOf? : List String → Option AttributeRules
  | [] => none
  | name :: names => some (if name = wildcard then .any else .allowed (name :: names))

def ofOutline (document : String) (o : Outline) : Except GrammarFault Grammar := do
  let children ← o.nodes.mapM fun (ruleset, entries) => do
    return (← childRulesOf document ruleset entries).map fun rules => (ruleset, rules)
  let attributes := o.attributes.filterMap fun (ruleset, names) =>
    (attributeRulesOf? names).map fun rules => (ruleset, rules)
  return ⟨children.filterMap id, attributes⟩

def malformedDetails : String := "not a grammar document"

def parse (document source : String) : Except GrammarFault Grammar :=
  match (Json.parse? source).bind Outline.ofValue? with
  | some o => ofOutline document o
  | none => .error (.malformed document malformedDetails)

end ExtensionLint.Grammar
