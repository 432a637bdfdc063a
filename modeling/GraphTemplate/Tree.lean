import GraphTemplate.Schema

/-!
# Trees

Looking up and enumerating the nodes of a value by their paths, and the rows that a canonical path
flattens a value into: one for each concrete path that it covers, with what stands at each key along
that path.
-/

namespace GraphTemplate

namespace Value

/-- The node one step below a value. -/
def step? : Value → Segment → Option Value
  | map fields, .key key => Fields.get? fields key
  | list items, .index position => items[position]?
  | _, _ => Option.none

/-- The node that a concrete path leads to. -/
def get? : Value → Path → Option Value
  | value, [] => some value
  | value, segment :: rest => (value.step? segment).bind (get? · rest)

mutual

/-- Every concrete path of a value, each before those that it begins, in the order of the entries
and elements. -/
def concretePaths : Value → List Path
  | list items => itemPaths 0 items
  | map fields => entryPaths fields
  | _ => []

/-- The concrete paths through the elements of a list, from a position on. -/
def itemPaths (position : Nat) : List Value → List Path
  | [] => []
  | item :: rest =>
      [.index position] :: item.concretePaths.map (.index position :: ·) ++
        itemPaths (position + 1) rest

def entryPaths : List (String × Value) → List Path
  | [] => []
  | (key, value) :: rest =>
      [.key key] :: value.concretePaths.map (.key key :: ·) ++ entryPaths rest

end

/-- What the keys along a path stand for, in order.  A key that an index follows stands for the
element and not for the list. -/
def along? : Value → Path → Option (List (String × Value))
  | _, [] => some []
  | value, segment :: rest => do
      let below ← value.step? segment
      let more ← below.along? rest
      match segment, rest with
      | .key key, .index position :: _ => return (key, ← below.step? (.index position)) :: more
      | .key key, _ => return (key, below) :: more
      | _, _ => return more

/-- The row of a concrete path: its keys with what they stand for, a repeated key with what it
stands for last. -/
def row? (value : Value) (path : Path) : Option (Fields Value) :=
  (value.along? path).map Fields.ofList

/-- The rows of all concrete paths that a pattern covers. -/
def branches (value : Value) (pattern : Path) : List (Fields Value) :=
  (value.concretePaths.filter pattern.covers).filterMap value.row?

end Value

/-- A value with its schema and the lists of its paths worked out. -/
structure Tree where
  value : Value
  schema : Schema := Schema.infer value
  canonicalPaths : List Path := schema.canonicalPaths
  concretePaths : List Path := value.concretePaths
  schema_eq : schema = Schema.infer value := by rfl
  canonicalPaths_eq : canonicalPaths = schema.canonicalPaths := by rfl
  concretePaths_eq : concretePaths = value.concretePaths := by rfl

namespace Tree

def ofValue (value : Value) : Tree :=
  { value := value }

def isPath (tree : Tree) (path : Path) : Bool :=
  tree.canonicalPaths.contains path

def isKey (tree : Tree) (path : Path) : Bool :=
  tree.concretePaths.contains path

/-- The node that a concrete path leads to. -/
def get? (tree : Tree) (path : Path) : Option Value :=
  tree.value.get? path

/-- The canonical path that a path stands for. -/
def canonicalize (tree : Tree) (path : Path) : Except Fault Path :=
  tree.schema.canonicalize path

/-- The rows of the canonical path that a path stands for. -/
def branches (tree : Tree) (path : Path) : Except Fault (List (Fields Value)) :=
  (tree.canonicalize path).map tree.value.branches

/-- The canonical paths that end in a key. -/
def find (tree : Tree) (name : String) : List Path :=
  tree.canonicalPaths.filter fun path => path.lastKey? == some name

/-- The first canonical path that ends in a key. -/
def search? (tree : Tree) (name : String) : Option Path :=
  tree.canonicalPaths.find? fun path => path.lastKey? == some name

end Tree

end GraphTemplate
