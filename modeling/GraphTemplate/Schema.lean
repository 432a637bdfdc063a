import GraphTemplate.Fault
import GraphTemplate.Value

/-!
# Schemas

The shape of a tree: which keys its maps have and where its lists are.  All elements of a list
share one shape, the union of their shapes, so a schema describes every position that a canonical
path can name.

`Schema.canonicalPaths` lists those positions and `Schema.canonicalize` completes a path to one of
them.
-/

namespace GraphTemplate

inductive Schema where
  /-- A leaf, or a shape about which nothing is known. -/
  | scalar
  | map (fields : List (String × Schema))
  | list (element : Schema)

namespace Schema

def get? : Schema → String → Option Schema
  | map fields, key => Fields.get? fields key
  | _, _ => none

def element? : Schema → Option Schema
  | list element => some element
  | _ => none

mutual

/-- The shape that describes both.  A scalar adds nothing, maps unite their keys and lists their
elements; where a map meets a list the first stands. -/
def union (first : Schema) : Schema → Schema
  | scalar => first
  | map others =>
      match first with
      | scalar => map others
      | map fields => map (unionEntries fields others)
      | list element => list element
  | list other =>
      match first with
      | scalar => list other
      | map fields => map fields
      | list element => list (element.union other)

/-- Unites entries into a map shape one after the other. -/
def unionEntries (fields : Fields Schema) : List (String × Schema) → Fields Schema
  | [] => fields
  | (key, shape) :: rest =>
      unionEntries (fields.insert key (((fields.get? key).getD scalar).union shape)) rest

end

mutual

def infer : Value → Schema
  | .map fields => map (inferEntries fields)
  | .list items => list ((inferItems items).foldl union scalar)
  | _ => scalar

def inferItems : List Value → List Schema
  | [] => []
  | item :: rest => infer item :: inferItems rest

def inferEntries : List (String × Value) → List (String × Schema)
  | [] => []
  | (key, value) :: rest => (key, infer value) :: inferEntries rest

end

mutual

/-- The same shape; the order of map entries does not count. -/
def same : Schema → Schema → Bool
  | scalar, scalar => true
  | map xs, map ys => xs.length == ys.length && sameEntries xs ys
  | list x, list y => x.same y
  | _, _ => false

def sameEntries : List (String × Schema) → List (String × Schema) → Bool
  | [], _ => true
  | (key, x) :: xs, ys =>
      (match Fields.get? ys key with
        | some y => x.same y
        | none => false) && sameEntries xs ys

end

mutual

/-- No map in the shape repeats a key. -/
def KeysDistinct : Schema → Prop
  | scalar => True
  | map fields => Fields.Distinct fields ∧ EntriesKeysDistinct fields
  | list element => element.KeysDistinct

def EntriesKeysDistinct : List (String × Schema) → Prop
  | [] => True
  | (_, shape) :: rest => shape.KeysDistinct ∧ EntriesKeysDistinct rest

end

mutual

/-- Every canonical path of a shape, each before those that it begins; a list adds one wildcard. -/
def canonicalPaths : Schema → List Path
  | scalar => []
  | map fields => entryPaths fields
  | list element => [.any] :: element.canonicalPaths.map (.any :: ·)

def entryPaths : List (String × Schema) → List Path
  | [] => []
  | (key, shape) :: rest =>
      [.key key] :: shape.canonicalPaths.map (.key key :: ·) ++ entryPaths rest

end

/-- An index or a wildcard in front of a path is used up where the schema has a list. -/
def skipElement : Path → Path
  | .index _ :: rest => rest
  | .any :: rest => rest
  | path => path

mutual

/-- Completes a path that starts at a shape, which itself stands at the path `done`.  Every list
that is entered gets its wildcard, whether the path names an element there or not; a path that ends
at a list goes on into its elements, but not into lists inside them. -/
def canonicalizeAt (done : Path) : Schema → Path → Except Fault Path
  | list element, path =>
      match skipElement path with
      | [] => .ok [.any]
      | rest => do return .any :: (← canonicalizeAt (done.join .any) element rest)
  | _, [] => .ok []
  | map fields, .key key :: rest => do
      return .key key :: (← canonicalizeEntry done key rest fields)
  | scalar, .key key :: _ => .error (.missingKey done key)
  | _, segment :: _ => .error (.notAKey done segment)

def canonicalizeEntry (done : Path) (key : String) (rest : Path) :
    List (String × Schema) → Except Fault Path
  | [] => .error (.missingKey done key)
  | (name, shape) :: more =>
      if name = key then canonicalizeAt (done.join (.key key)) shape rest
      else canonicalizeEntry done key rest more

end

/-- The canonical path that a path stands for. -/
def canonicalize (schema : Schema) (path : Path) : Except Fault Path :=
  schema.canonicalizeAt [] path

end Schema

end GraphTemplate
