/-!
# Kinds

The kinds of things that data, attributes and walks can hold, with the names by which messages
speak of them.
-/

namespace GraphTemplate

/-- What a value, an attribute or a node is. -/
inductive Kind where
  | none
  | bool
  | integer
  | float
  | string
  | list
  | map
  | object
  | relation
deriving DecidableEq, Repr

namespace Kind

def name : Kind → String
  | none => "none"
  | bool => "bool"
  | integer => "integer"
  | float => "float"
  | string => "string"
  | list => "list"
  | map => "map"
  | object => "object"
  | relation => "relation"

end Kind

end GraphTemplate
