import GraphTemplate.Object

/-!
# Routes to relations

Templates speak of the elements of a relation by a singular name and do not say where in the graph
the relation is.  `findRelation?` looks for it among named candidates: first on the candidates
themselves, then on a sample of what lies below them, level by level.  The first element of a
relation that is not empty is the sample for all of them.

A relation that is exposed twice on one level, or found below two candidates of one level, is
ambiguous.
-/

namespace GraphTemplate

/-- The name of the relation that holds what a name stands for. -/
def plural (name : String) : String :=
  name ++ "s"

/-- The name of the elements of a relation, if its name is a plural. -/
def singular? (name : String) : Option String :=
  let stem := name.toList.dropLast
  if name.toList.getLast? = some 's' ∧ stem ≠ [] then some (String.ofList stem) else none

/-- A way through the graph: a bound name and the attributes to follow from it. -/
structure Route where
  owner : String
  steps : List String
deriving DecidableEq, Repr

namespace Route

def names (route : Route) : List String :=
  route.owner :: route.steps

/-- The route as it is seen from one level higher. -/
def under (owner : String) (route : Route) : Route :=
  ⟨owner, route.names⟩

/-- The route goes through the whole of another one and on. -/
def isBelow (deeper route : Route) : Bool :=
  route.names.isPrefixOf deeper.names && route.names.length < deeper.names.length

end Route

/-- The first elements of the relations that are not empty, under the names of the relations. -/
def Object.samples (o : Object) : List (String × Object) :=
  o.relations.filterMap fun relation => relation.2.head?.map (relation.1, ·)

/-- The names of the candidates that expose a relation themselves. -/
def exposers (relation : String) (candidates : List (String × Object)) : List String :=
  (candidates.filter fun candidate => (candidate.2.relation? relation).isSome).map Prod.fst

/-- Chooses among what the candidates of a level expose; if they expose nothing, among the routes
that lead on below them, which are asked for only then. -/
def chooseRoute (relation : String) (level : Nat) (candidates : List (String × Object))
    (routesBelow : Unit → Except Fault (List Route)) : Except Fault (Option Route) :=
  match exposers relation candidates with
  | [] => do
      match ← routesBelow () with
      | [] => return none
      | [route] => return some route
      | routes => throw (.ambiguousRelation relation (level + 1) (routes.map Route.owner))
  | [owner] => .ok (some ⟨owner, [relation]⟩)
  | owners => .error (.ambiguousRelation relation level owners)

mutual

/-- The route to a relation below an object, whose samples are on the given level. -/
def Object.routeBelow? (relation : String) (level : Nat) : Object → Except Fault (Option Route)
  | .mk attrs =>
      chooseRoute relation level (Object.mk attrs).samples fun _ =>
        Object.routesBelowAttrs relation level attrs

/-- The routes to a relation below the samples of the attributes. -/
def Object.routesBelowAttrs (relation : String) (level : Nat) :
    List (String × Attr) → Except Fault (List Route)
  | [] => .ok []
  | (name, .relation (sample :: _)) :: rest => do
      let found ← sample.routeBelow? relation (level + 1)
      let others ← Object.routesBelowAttrs relation level rest
      return (found.map (Route.under name)).toList ++ others
  | _ :: rest => Object.routesBelowAttrs relation level rest

end

/-- The routes to a relation below candidates of the given level. -/
def routesBelowCandidates (relation : String) (level : Nat) :
    List (String × Object) → Except Fault (List Route)
  | [] => .ok []
  | (name, object) :: rest => do
      let found ← object.routeBelow? relation (level + 1)
      let others ← routesBelowCandidates relation level rest
      return (found.map (Route.under name)).toList ++ others

/-- The route from the candidates to the relation that holds what a name stands for. -/
def findRelation? (candidates : List (String × Object)) (name : String) :
    Except Fault (Option Route) :=
  chooseRoute (plural name) 0 candidates fun _ =>
    routesBelowCandidates (plural name) 0 candidates

/-- The attribute is one that stands for a single thing, not a relation. -/
def Attr.isSingle : Attr → Bool
  | .relation _ => false
  | _ => true

/-- The route to an attribute of one of the candidates that stands for a single thing. -/
def findAttribute? (candidates : List (String × Object)) (name : String) :
    Except Fault (Option Route) :=
  match (candidates.filter fun candidate => (candidate.2.attr? name).any Attr.isSingle).map
      Prod.fst with
  | [] => .ok none
  | [owner] => .ok (some ⟨owner, [name]⟩)
  | owners => .error (.ambiguousAttribute name owners)

end GraphTemplate
