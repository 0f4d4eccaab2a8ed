import ExtensionLint.Markup.Element
import ExtensionLint.Markup.Reference

/-!
XML documents. The tokens of a document open and close elements on a stack; a reference to an entity
puts the tokens of its text in its place. The number of nested references is bounded, so reading a
document ends.
-/
namespace ExtensionLint.Markup

open Text

/-- How deep references to entities may nest. -/
def deepestReference : Nat := 10

/-- How many references the expansion of one reference may meet. -/
def mostReferences : Nat := 255

def xmlSpace : List Char := "http://www.w3.org/XML/1998/namespace".toList

def xmlnsSpace : List Char := "http://www.w3.org/2000/xmlns/".toList

/-- Namespaces by prefix, innermost first. -/
abbrev Scope := List (List Char × List Char)

/-- An element that is still open. Children and text are held in reverse. -/
structure Frame where
  name : Name
  attributes : List (String × String)
  scope : Scope
  children : List Element := []
  text : List Char := []

/-- The attributes and namespaces of a tag while it is read. Both are held in reverse. -/
structure Header where
  declared : Scope := []
  attributes : List (Name × List Char) := []

/-- Adds an attribute with its value. The prefixes `xml` and `xmlns` and their namespaces belong
together, and no prefix is declared twice. -/
def Header.add? (h : Header) (name : Name) (value : List Char) : Option Header :=
  if name.space = "xmlns".toList then
    if value = xmlnsSpace then none
    else if (name.base = "xml".toList) ≠ (value = xmlSpace) then none
    else if h.declared.any (·.1 = name.base) then none
    else if value = xmlSpace then some h
    else some { h with declared := (name.base, value) :: h.declared }
  else if name.base = "xmlns".toList then
    if value = xmlSpace ∨ value = xmlnsSpace then none else some h
  else some { h with attributes := (name, value) :: h.attributes }

structure Progress where
  /-- Open elements, innermost first. -/
  stack : List Frame := []
  root : Option Element := none
  /-- Whether a tag has been met in the text that is being read. -/
  tagged : Bool := false
  /-- Attributes of tags without an end. They belong to the tag that is met next, unless it closes an
  element. -/
  pending : Header := {}
  /-- References met since the outermost one. -/
  references : Nat := 0

def Frame.element (f : Frame) : Element :=
  .node (String.ofList f.name.base) f.attributes f.children.reverse (String.ofList f.text.reverse)

namespace Progress

def addText (p : Progress) (s : List Char) : Progress :=
  match p.stack with
  | f :: fs => { p with stack := { f with text := s.reverse ++ f.text } :: fs }
  | [] => p

def addElement (p : Progress) (e : Element) : Progress :=
  match p.stack with
  | f :: fs => { p with stack := { f with children := e :: f.children } :: fs }
  | [] => { p with root := p.root.or (some e) }

def scope (p : Progress) : Scope :=
  match p.stack with
  | f :: _ => f.scope
  | [] => []

/-- Counts a reference to an entity; `nested` tells whether it stands in the text of another one. -/
def countReference? (p : Progress) (nested : Bool) : Option Progress :=
  if nested then
    if p.references < mostReferences then some { p with references := p.references + 1 } else none
  else some p

/-- Leaves the text of an entity; outside of all entities the count starts anew. -/
def leaveReference (p : Progress) (nested : Bool) : Progress :=
  if nested then p else { p with references := 0 }

end Progress

/-- A character in the value of an attribute. White space becomes spaces, and of the two characters
of a line end one is dropped. -/
def normalized (c : Char) (next : Option Char) : List Char :=
  if c == '\r' && next == some '\n' then []
  else if c == '\n' || c == '\r' || c == '\t' then [' ']
  else [c]

def plainHead? : List Piece → Option Char
  | .plain c :: _ => some c
  | .char _ :: _ => some '&'
  | .entity _ :: _ => some '&'
  | [] => none

/-- Spells out the pieces of a value; `expand` spells out an entity, `nested` tells whether the pieces
are those of one. Together with the text it yields the number of references met. -/
def valueWith (expand : List Char → Progress → Option (List Char × Progress)) (nested : Bool) :
    List Piece → Progress → Option (List Char × Progress)
  | [], p => some ([], p)
  | .plain c :: rest, p =>
    (valueWith expand nested rest p).map fun (s, p) => (normalized c (plainHead? rest) ++ s, p)
  | .char c :: rest, p =>
    if nested then
      if c = '<' then none
      else (valueWith expand nested rest p).map fun (s, p) => (normalized c none ++ s, p)
    else (valueWith expand nested rest p).map fun (s, p) => (c :: s, p)
  | .entity name :: rest, p => do
    let p ← p.countReference? nested
    let (inner, p) ← expand name p
    let (s, p) ← valueWith expand nested rest (p.leaveReference nested)
    return (inner ++ s, p)

/-- The value that a text of an entity spells, with `left` more levels of references. -/
def entityValueAt (entities : Entities) : (left : Nat) → List Char → Progress →
    Option (List Char × Progress)
  | 0, _, _ => none
  | left + 1, name, p => do
    let written ← entities.lookup name
    let ps ← pieces? written
    valueWith (entityValueAt entities left) true ps p

def attributeValue? (entities : Entities) (left : Nat) (nested : Bool) (written : List Char)
    (p : Progress) : Option (List Char × Progress) := do
  let ps ← pieces? written
  valueWith (entityValueAt entities left) nested ps p

def header? (entities : Entities) (left : Nat) (nested : Bool) :
    List (Name × List Char) → Progress → Option Progress
  | [], p => some p
  | (name, written) :: rest, p => do
    let (value, p) ← attributeValue? entities left nested written p
    let pending ← p.pending.add? name value
    header? entities left nested rest { p with pending }

/-- The namespace of an attribute: none without a prefix. The outer option tells whether the prefix
is declared. -/
def spaceOf? (scope : Scope) (name : Name) : Option (Option (List Char)) :=
  if name.space = [] then some none
  else if name.space = "xml".toList then some (some xmlSpace)
  else (scope.lookup name.space).map some

def allDistinct [BEq α] : List α → Bool
  | [] => true
  | a :: as => !as.contains a && allDistinct as

/-- The attributes outside all namespaces, if every prefix is declared and no attribute is given
twice. -/
def resolved? (scope : Scope) (attributes : List (Name × List Char)) :
    Option (List (String × String)) := do
  let spaces ← attributes.mapM fun (name, _) => spaceOf? scope name
  let keys := spaces.zip (attributes.map (·.1.base))
  if allDistinct keys then
    return (attributes.filter fun (name, _) => name.space = []).map fun (name, value) =>
      (String.ofList name.base, String.ofList value)
  else none

namespace Progress

/-- The namespaces and attributes of a tag that ends, once all its attributes have been met. -/
def settle? (p : Progress) : Option (Scope × List (String × String) × Progress) := do
  let scope := p.pending.declared ++ p.scope
  let attributes ← resolved? scope p.pending.attributes.reverse
  return (scope, attributes, { p with pending := {} })

def open? (p : Progress) (name : Name) : Option Progress := do
  let (scope, attributes, p) ← p.settle?
  if name.space ≠ [] ∧ scope.lookup name.space = none then none
  let frame : Frame := ⟨name, attributes, scope, [], []⟩
  return { p with stack := frame :: p.stack }

def end? (p : Progress) : Option Progress :=
  match p.stack with
  | f :: fs => some (addElement { p with stack := fs } f.element)
  | [] => none

/-- Closes the innermost element, which has the given name. Attributes without a tag are dropped, but
they have to be in order. -/
def close? (p : Progress) (name : Name) : Option Progress := do
  let (_, _, p) ← p.settle?
  let f ← p.stack.head?
  if p.tagged ∧ f.name = name then p.end? else none

def endTag? (p : Progress) (name : Name) : TagEnd → Option Progress
  | .opening => p.open? name
  | .empty => (p.open? name).bind end?
  | .missing => some p

end Progress

/-- Characters read since the last reference to an entity, in reverse. A CR stays until the next
character is known. -/
structure Buffer where
  chars : List Char := []
  /-- Whether the last character came from a reference, so that the next one stays as it is. -/
  kept : Bool := false

/-- Adds a character of a text: CR and CRLF become LF. -/
def joinLine (chars : List Char) (c : Char) (atEnd : Bool) : List Char :=
  match chars with
  | '\r' :: rest =>
    if atEnd && c == '\r' then '\n' :: '\n' :: rest
    else if c == '\n' then '\n' :: rest
    else c :: '\n' :: rest
  | rest => if atEnd && c == '\r' then '\n' :: rest else c :: rest

def Buffer.addPlain (b : Buffer) (c : Char) (atEnd : Bool) : Buffer :=
  if b.kept then ⟨c :: b.chars, false⟩ else ⟨joinLine b.chars c atEnd, false⟩

/-- Adds a character that a reference stands for; inside entities it is like any other. -/
def Buffer.addReferenced (b : Buffer) (nested : Bool) (c : Char) (atEnd : Bool) : Buffer :=
  if nested then ⟨joinLine b.chars c atEnd, b.kept⟩ else ⟨c :: b.chars, true⟩

/-- Reads the pieces of a text; `expand` reads the text of an entity. -/
def textWith (expand : List Char → Progress → Option Progress) (nested : Bool) :
    List Piece → Buffer → Progress → Option Progress
  | [], b, p => some (p.addText b.chars.reverse)
  | .plain c :: rest, b, p => textWith expand nested rest (b.addPlain c rest.isEmpty) p
  | .char c :: rest, b, p => textWith expand nested rest (b.addReferenced nested c rest.isEmpty) p
  | .entity name :: rest, b, p => do
    let before := p.addText b.chars.reverse
    let inside ← before.countReference? nested
    let p ← expand name { inside with tagged := false }
    textWith expand nested rest {} ({ p with tagged := before.tagged }.leaveReference nested)

def literalText : List Char → (done : List Char) → List Char
  | [], done => done.reverse
  | c :: s, done => literalText s (joinLine done c s.isEmpty)

/-- Reads tokens; `expand` reads the text of an entity. -/
def readWith (expand : List Char → Progress → Option Progress) (entities : Entities) (left : Nat)
    (nested : Bool) : List Token → Progress → Option Progress
  | [], p => some p
  | .tag name attributes ending :: rest, p => do
    if name.space = "xmlns".toList then none
    let p ← header? entities left nested attributes { p with tagged := true }
    let p ← p.endTag? name ending
    readWith expand entities left nested rest p
  | .close name :: rest, p => do
    let p ← p.close? name
    readWith expand entities left nested rest p
  | .text written :: rest, p => do
    let ps ← pieces? written
    let p ← textWith expand nested ps {} p
    readWith expand entities left nested rest p
  | .literal written :: rest, p =>
    readWith expand entities left nested rest (p.addText (literalText written []))

def entityAt (entities : Entities) : (left : Nat) → List Char → Progress → Option Progress
  | 0, _, _ => none
  | left + 1, name, p => do
    let written ← entities.lookup name
    let (tokens, _) ← content? written
    readWith (entityAt entities left) entities left true tokens p

/-- The root element of a document; `none` if the text is not well-formed. -/
def document? (source : List Char) : Option Element := do
  let (entities, s) ← prolog? source
  let (tokens, s) ← element? s
  let rest ← miscellany? s
  if !rest.isEmpty then none
  let p ← readWith (entityAt entities deepestReference) entities deepestReference false tokens {}
  if p.stack.isEmpty then p.root else none

end ExtensionLint.Markup
