/-!
Trees of elements: what remains of a document once it is read. Names have lost their prefixes, and
attributes that belong to a namespace are left out.
-/
namespace ExtensionLint.Markup

inductive Element
  | node (name : String) (attributes : List (String × String)) (children : List Element)
      (text : String)
  deriving Repr

namespace Element

def name : Element → String
  | node n _ _ _ => n

def attributes : Element → List (String × String)
  | node _ as _ _ => as

/-- The elements directly inside. -/
def children : Element → List Element
  | node _ _ cs _ => cs

/-- The characters directly inside, joined. -/
def text : Element → String
  | node _ _ _ t => t

theorem sizeOf_lt_of_mem_children {c e : Element} (h : c ∈ e.children) : sizeOf c < sizeOf e := by
  cases e with
  | node n as cs t =>
    have := List.sizeOf_lt_of_mem h
    simp only [children] at this
    simp only [node.sizeOf_spec]
    omega

def attr? (e : Element) (name : String) : Option String := e.attributes.lookup name

def child? (e : Element) (name : String) : Option Element := e.children.find? (·.name = name)

def childrenNamed (e : Element) (name : String) : List Element :=
  e.children.filter (·.name = name)

def count (e : Element) (name : String) : Nat := (e.childrenNamed name).length

/-- Whether an element has no attribute, no child and no text. -/
def isEmpty (e : Element) : Bool := e.children.isEmpty && e.attributes.isEmpty && e.text = ""

end Element
end ExtensionLint.Markup
