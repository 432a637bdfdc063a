import GraphTemplate.Relation.Route
import GraphTemplate.Scope

/-!
# Discovery

What a name stands for that no binding of the scope has.  It is the name of the elements of a
relation, found below the innermost binding if there is a route there and else below all visible
bindings, or it is an attribute of one of the bindings.

A `Resolver` answers the question in the course of an expansion.  `Resolver.fresh` looks every time;
`Resolver.remembering` keeps what it found under the name, the name bound innermost, and the set of
bound names.
-/

namespace GraphTemplate

/-- What an unbound name was found to be. -/
inductive Finding where
  | relation (route : Route)
  | attribute (route : Route)
deriving DecidableEq, Repr

namespace Scope

/-- The route to the relation that holds what a name stands for. -/
def relationRoute? (scope : Scope) (name : String) : Except Fault (Option Route) := do
  let candidates := scope.candidates
  if 1 < candidates.length then
    if let some route ← findRelation? [(scope.innermost.name, scope.innermost.object)] name then
      return some route
  findRelation? candidates name

/-- What an unbound name stands for. -/
def discover (scope : Scope) (name : String) : Except Fault Finding := do
  if let some route ← scope.relationRoute? name then
    return .relation route
  if let some route ← findAttribute? scope.candidates name then
    return .attribute route
  throw (.unresolvedName name (plural name))

end Scope

/-- A way to answer what unbound names stand for, with a state of its own. -/
structure Resolver (σ : Type) where
  find : Scope → String → ExceptT Fault (StateM σ) Finding

/-- Everything that decides, for a resolver that remembers, whether two questions are the same. -/
structure Question where
  name : String
  innermost : String
  bound : List String
deriving DecidableEq, Repr

/-- The question what a name stands for in a scope. -/
def Scope.question (scope : Scope) (name : String) : Question :=
  ⟨name, scope.innermost.name, scope.names⟩

/-- Answered questions, the latest first. -/
abbrev Memory := List (Question × Finding)

namespace Resolver

/-- Looks every time. -/
def fresh : Resolver Unit where
  find scope name := ExceptT.mk (pure (scope.discover name))

/-- Looks once for each question and remembers what was found; faults are not remembered. -/
def remembering : Resolver Memory where
  find scope name := ExceptT.mk fun memory =>
    match memory.lookup (scope.question name) with
    | some finding => (.ok finding, memory)
    | none =>
        match scope.discover name with
        | .ok finding => (.ok finding, (scope.question name, finding) :: memory)
        | .error fault => (.error fault, memory)

end Resolver

end GraphTemplate
