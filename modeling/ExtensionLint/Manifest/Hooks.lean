import ExtensionLint.Data.Entries
import ExtensionLint.Manifest.Finding
import ExtensionLint.Markup.Element
import ExtensionLint.Text.Quoted

/-! Further checks for elements of certain names. -/
namespace ExtensionLint.Manifest

open Markup

abbrev Hook := Element → List Diagnostic

/-- Hooks by the name of the element; each name has one. -/
structure Hooks where
  entries : List (String × Hook) := []

namespace Hooks

/-- The hooks with one more, which takes the place of another one for the same name. -/
def register (h : Hooks) (element : String) (hook : Hook) : Hooks :=
  ⟨Data.put element hook h.entries⟩

def find? (h : Hooks) (element : String) : Option Hook := h.entries.lookup element

def size (h : Hooks) : Nat := h.entries.length

def run (h : Hooks) (e : Element) : List Diagnostic :=
  match h.find? e.name with
  | some hook => hook e
  | none => []

def names (h : Hooks) : List String := (h.entries.map (·.1)).mergeSort (· ≤ ·)

def describe (h : Hooks) : String :=
  let names := ", ".intercalate (h.names.map Text.quoted)
  s!"HookRegistry \x7b hooks: [{names}] \x7d"

end Hooks

/-- Attributes of a menu that a link makes void. -/
def linkOverrides : List String := ["act", "controller", "layout", "sub", "task", "view"]

def menuHook : Hook := fun e =>
  if (e.attr? "link").isNone then []
  else
    let void := e.attributes.filter fun (name, _) => linkOverrides.contains name
    void.map fun (name, _) => .warning (.menuUnusedAttribute name)

def defaultHooks : Hooks := ({} : Hooks).register "menu" menuHook

end ExtensionLint.Manifest
