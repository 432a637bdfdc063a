import GraphTemplate.Fault
import GraphTemplate.Value

/-!
# Objects

The graph of objects against which templates are expanded.  An object declares each of its
attributes as a plain value, one nested object, or a relation to any number of objects.  Attributes
keep the order of their declaration.

`Object.ofValue?` reads an object out of a map and `Object.toValue` writes it back.
-/

namespace GraphTemplate

mutual

inductive Attr where
  | value (content : Value)
  | object (content : Object)
  | relation (elements : List Object)

/-- Named attributes in the order of their declaration. -/
inductive Object where
  | mk (attrs : List (String × Attr))

end

namespace Attr

def kind : Attr → Kind
  | value content => content.kind
  | object _ => .object
  | relation _ => .relation

end Attr

namespace Object

def attrs : Object → Fields Attr
  | mk attrs => attrs

def empty : Object :=
  mk []

/-- Declares an attribute, in place of one of that name if there is one. -/
def insert (o : Object) (name : String) (attr : Attr) : Object :=
  mk (o.attrs.insert name attr)

/-- The object with the attributes declared one after the other. -/
def ofList (entries : List (String × Attr)) : Object :=
  mk (Fields.ofList entries)

def attr? (o : Object) (name : String) : Option Attr :=
  o.attrs.get? name

def value? (o : Object) (name : String) : Option Value :=
  match o.attr? name with
  | some (.value content) => some content
  | _ => none

def object? (o : Object) (name : String) : Option Object :=
  match o.attr? name with
  | some (.object content) => some content
  | _ => none

def relation? (o : Object) (name : String) : Option (List Object) :=
  match o.attr? name with
  | some (.relation elements) => some elements
  | _ => none

def relations (o : Object) : List (String × List Object) :=
  o.attrs.filterMap fun entry =>
    match entry.2 with
    | .relation elements => some (entry.1, elements)
    | _ => none

def size (o : Object) : Nat :=
  o.attrs.length

end Object

mutual

/-- Whether two attributes hold the same data in the same way. -/
def Attr.same : Attr → Attr → Bool
  | .value v, .value w => v.same w
  | .object o, .object p => o.same p
  | .relation xs, .relation ys => Object.sameElements xs ys
  | _, _ => false

/-- Whether two objects have the same attributes, whatever their order. -/
def Object.same : Object → Object → Bool
  | .mk xs, .mk ys => xs.length == ys.length && Object.sameAttrs xs ys

/-- Whether two lists hold the same objects in the same order. -/
def Object.sameElements : List Object → List Object → Bool
  | [], [] => true
  | x :: xs, y :: ys => x.same y && Object.sameElements xs ys
  | _, _ => false

/-- Whether every attribute of the first kind is the same among the second. -/
def Object.sameAttrs : List (String × Attr) → List (String × Attr) → Bool
  | [], _ => true
  | (name, x) :: xs, ys =>
      (match Fields.get? ys name with
        | some y => x.same y
        | none => false) && Object.sameAttrs xs ys

end

mutual

/-- No object in the graph below the attribute declares a name twice, and no map repeats a key. -/
def Attr.NamesDistinct : Attr → Prop
  | .value v => v.KeysDistinct
  | .object o => o.NamesDistinct
  | .relation elements => Object.ElementsNamesDistinct elements

/-- No object in the graph declares a name twice, and no map in it repeats a key. -/
def Object.NamesDistinct : Object → Prop
  | .mk attrs => Fields.Distinct attrs ∧ Object.AttrsNamesDistinct attrs

def Object.ElementsNamesDistinct : List Object → Prop
  | [] => True
  | element :: rest => element.NamesDistinct ∧ Object.ElementsNamesDistinct rest

def Object.AttrsNamesDistinct : List (String × Attr) → Prop
  | [] => True
  | (_, attr) :: rest => attr.NamesDistinct ∧ Object.AttrsNamesDistinct rest

end

mutual

/-- The attribute that a value makes: a map makes a nested object, a list of nothing but maps makes
a relation, the empty list included, and anything else stays a plain value. -/
def Attr.ofValue : Value → Attr
  | .map fields => .object (.mk (Object.attrsOfEntries fields))
  | .list items =>
      match Object.elementsOfItems? items with
      | some elements => .relation elements
      | none => .value (.list items)
  | content => .value content

def Object.elementsOfItems? : List Value → Option (List Object)
  | [] => some []
  | .map fields :: rest =>
      (Object.elementsOfItems? rest).map (.mk (Object.attrsOfEntries fields) :: ·)
  | _ :: _ => none

def Object.attrsOfEntries : List (String × Value) → List (String × Attr)
  | [] => []
  | (name, content) :: rest => (name, Attr.ofValue content) :: Object.attrsOfEntries rest

end

/-- The object that a map makes; no other value makes one. -/
def Object.ofValue? : Value → Except Fault Object
  | .map fields => .ok (.mk (Object.attrsOfEntries fields))
  | content => .error (.notAnObject content.kind)

mutual

/-- The value of an attribute: an object becomes a map and a relation a list of maps. -/
def Attr.toValue : Attr → Value
  | .value content => content
  | .object o => o.toValue
  | .relation elements => .list (Object.elementsToItems elements)

def Object.toValue : Object → Value
  | .mk attrs => .map (Object.attrsToEntries attrs)

def Object.elementsToItems : List Object → List Value
  | [] => []
  | element :: rest => element.toValue :: Object.elementsToItems rest

def Object.attrsToEntries : List (String × Attr) → List (String × Value)
  | [] => []
  | (name, attr) :: rest => (name, attr.toValue) :: Object.attrsToEntries rest

end

end GraphTemplate
