/-!
Values that documents hold, and how records are read from them. A value of a kind that no setting
takes keeps its kind only.
-/
namespace ExtensionLint.Data

inductive Value
  | null
  | bool (b : Bool)
  | integer (n : Int)
  /-- A number that is not an integer of 64 bits. -/
  | fraction
  /-- A date, a time or both. -/
  | moment
  | text (s : String)
  | list (items : List Value)
  | table (entries : List (String × Value))
  /-- A value that may be skipped but not read: an unpaired surrogate, a number out of range. -/
  | unreadable
  deriving Repr

/-- Where document formats differ in what a record accepts. -/
structure Dialect where
  /-- What may stand beside the name of a choice that is written as a table of one entry. -/
  idlePayload : Value → Bool
  /-- Whether a record written as a list may have more items than the record has fields. -/
  surplusItems : Bool

namespace Value

def text? : Value → Option String
  | text s => some s
  | _ => none

def bool? : Value → Option Bool
  | bool b => some b
  | _ => none

/-- An unsigned integer of 64 bits. -/
def natural? : Value → Option Nat
  | integer n => if 0 ≤ n ∧ n < UInt64.size then some n.toNat else none
  | _ => none

def listOf? (item : Value → Option α) : Value → Option (List α)
  | list vs => vs.mapM item
  | _ => none

def nullable? (some? : Value → Option α) : Value → Option (Option α)
  | null => some none
  | v => (some? v).map some

/-- One of the named choices, written as its name or as a table with its name alone. -/
def choice? (d : Dialect) (names : List String) : Value → Option String
  | text s => if s ∈ names then some s else none
  | table [(s, v)] => if s ∈ names ∧ d.idlePayload v = true then some s else none
  | _ => none

def under (key : String) (entries : List (String × Value)) : List Value :=
  (entries.filter (·.1 = key)).map (·.2)

/-- The only value under a key: `some none` if there is none, `none` if there are several. -/
def sole? (key : String) (entries : List (String × Value)) : Option (Option Value) :=
  match under key entries with
  | [] => some none
  | [v] => some (some v)
  | _ => none

/-- The fields of a record that may leave some out: a table by name, or a list in their order. A moment
counts as a table in which every field is left out. -/
def openFields? (d : Dialect) (names : List String) : Value → Option (List (Option Value))
  | table es => names.mapM (sole? · es)
  | list vs =>
    if vs.length ≤ names.length ∨ d.surplusItems = true then
      some ((List.range names.length).map fun i => vs[i]?)
    else none
  | moment => some (names.map fun _ => none)
  | _ => none

/-- The fields of a record that leaves none out when it is written as a list. -/
def fields? (names : List String) : Value → Option (List (Option Value))
  | table es => names.mapM (sole? · es)
  | list vs => if vs.length = names.length then some (vs.map some) else none
  | _ => none

def orElse (default : α) (read : Value → Option α) : Option Value → Option α
  | none => some default
  | some v => read v

end Value
end ExtensionLint.Data
