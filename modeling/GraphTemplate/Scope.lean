import GraphTemplate.Object

/-!
# Scopes

The names that are bound while a template is expanded, each to an object.  The root is bound first
and stays bound; every loop binds one more name around its body, and a name bound again hides the
binding outside.
-/

namespace GraphTemplate

structure Binding where
  name : String
  object : Object

/-- The bindings in force: the innermost one, and those around it from the inside out. -/
structure Scope where
  innermost : Binding
  outer : List Binding

namespace Scope

def root (name : String) (object : Object) : Scope :=
  ⟨⟨name, object⟩, []⟩

def bind (scope : Scope) (name : String) (object : Object) : Scope :=
  ⟨⟨name, object⟩, scope.innermost :: scope.outer⟩

def bindings (scope : Scope) : List Binding :=
  scope.innermost :: scope.outer

/-- The object that a name stands for, by its innermost binding. -/
def lookup? (scope : Scope) (name : String) : Option Object :=
  (scope.bindings.find? fun binding => binding.name == name).map Binding.object

/-- The elements of a relation on the innermost binding that exposes it, hidden bindings
included. -/
def relation? (scope : Scope) (relation : String) : Option (List Object) :=
  scope.bindings.findSome? fun binding => binding.object.relation? relation

/-- The visible bindings, in the order in which their names were first bound. -/
def candidates (scope : Scope) : Fields Object :=
  Fields.ofList (scope.bindings.reverse.map fun binding => (binding.name, binding.object))

/-- The bound names in ascending order. -/
def names (scope : Scope) : List String :=
  scope.candidates.keys.mergeSort fun left right => decide (left ≤ right)

/-- A name has a meaning in a scope after one more binding if it is the name bound or had a meaning
before. -/
theorem lookup?_bind (scope : Scope) (name : String) (object : Object) (other : String) :
    (scope.bind name object).lookup? other =
      if name = other then some object else scope.lookup? other := by
  by_cases same : name = other <;> simp [lookup?, bind, bindings, List.find?_cons, same]

end Scope

end GraphTemplate
