import ExtensionLint.Data.Entries
import ExtensionLint.Data.Value

/-!
The tables of a TOML document while it is read. Headers and dotted keys make tables on their way; what
may be added to a table later depends on how it came to be.
-/
namespace ExtensionLint.Data.Toml

/-- How a table came to be. -/
inductive Origin
  /-- It is the document, or has a header of its own. -/
  | header
  /-- It stands on the way to the table of a header. -/
  | implied
  /-- It stands on the way of a dotted key. -/
  | dotted
  deriving DecidableEq, Repr

inductive Node
  /-- A value that nothing can be added to. -/
  | closed (v : Value)
  | table (origin : Origin) (entries : List (String × Node))
  /-- Tables that share a header, the newest first. -/
  | series (tables : List (List (String × Node)))

abbrev Entries := List (String × Node)

mutual
def Node.toValue : Node → Value
  | .closed v => v
  | .table _ es => .table (entryValues es)
  | .series ts => .list (tableValues ts).reverse

def entryValues : List (String × Node) → List (String × Value)
  | [] => []
  | (k, n) :: es => (k, n.toValue) :: entryValues es

def tableValues : List (List (String × Node)) → List Value
  | [] => []
  | es :: ts => .table (entryValues es) :: tableValues ts
end

/-- Changes the table at the end of a path. Tables that are missing on the way are made with the given
origin; dotted keys do not reach into a table with a header of its own, and a series stands for its
newest table. -/
def within (made : Origin) (change : Origin → Entries → Option Entries) :
    (path : List String) → Origin → Entries → Option Entries
  | [], origin, es => change origin es
  | key :: path, _, es =>
    match es.lookup key with
    | none => (within made change path made []).map fun inner => put key (.table made inner) es
    | some (.table origin inner) =>
      if made = .dotted ∧ origin = .header then none
      else (within made change path origin inner).map fun inner =>
        put key (.table origin inner) es
    | some (.series (newest :: older)) =>
      (within made change path .header newest).map fun newest =>
        put key (.series (newest :: older)) es
    | _ => none

def cutLast? : (path : List String) → Option (List String × String)
  | [] => none
  | [key] => some ([], key)
  | key :: path => (cutLast? path).map fun (before, last) => (key :: before, last)

/-- Opens the table of a header. A table has one header only, and none if a dotted key made it. -/
def openTable (path : List String) (root : Entries) : Option Entries := do
  let (before, key) ← cutLast? path
  let change (_ : Origin) (es : Entries) : Option Entries :=
    match es.lookup key with
    | none => some (put key (.table .header []) es)
    | some (.table .implied inner) => some (put key (.table .header inner) es)
    | _ => none
  within .implied change before .header root

def openNext (path : List String) (root : Entries) : Option Entries := do
  let (before, key) ← cutLast? path
  let change (_ : Origin) (es : Entries) : Option Entries :=
    match es.lookup key with
    | none => some (put key (.series [[]]) es)
    | some (.series ts) => some (put key (.series ([] :: ts)) es)
    | _ => none
  within .implied change before .header root

/-- Sets a key, which may be dotted, in a table. No key is set twice, and dotted keys add to tables
that dotted keys have made. -/
def define (path : List String) (v : Value) (origin : Origin) (table : Entries) :
    Option Entries := do
  let (before, key) ← cutLast? path
  let change (origin : Origin) (es : Entries) : Option Entries :=
    if !before.isEmpty ∧ origin ≠ .dotted then none
    else match es.lookup key with
      | none => some (put key (.closed v) es)
      | some _ => none
  within .dotted change before origin table

end ExtensionLint.Data.Toml
