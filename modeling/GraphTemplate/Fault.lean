import GraphTemplate.Kind
import GraphTemplate.Path

/-!
# Faults

Everything that can go wrong, as causes.  The wording of a fault is fixed by `Fault.message`, its
category by `Fault.category`, and the names it found to collide by `Fault.candidates`.
-/

namespace GraphTemplate

/-- The categories that callers tell apart. -/
inductive Category where
  | malformed
  | unbalanced
  | unresolved
  | ambiguous
  | attribute
  | path
  | unrenderable
  | data
deriving DecidableEq, Repr

inductive Fault where
  /-- A line holds a second loop marker. -/
  | crowdedLine
  /-- A loop is opened under a name that is no plural. -/
  | singularLoop
  | strayClose
  /-- A loop is closed under another name than the innermost open one. -/
  | mismatchedClose (openName : String)
  | unclosedLoop
  /-- No bound object exposes the name as an attribute or its plural as a relation. -/
  | unresolvedName (name plural : String)
  /-- Several owners expose a relation at one level, or lead to it. -/
  | ambiguousRelation (relation : String) (level : Nat) (owners : List String)
  | ambiguousAttribute (name : String) (owners : List String)
  | missingAttribute (name : String)
  /-- A path goes on behind something that has no attributes. -/
  | noAttributes (next : String) (found : Kind)
  /-- A chain of relations ends in something that is no object. -/
  | notAnElement (found : Kind)
  /-- A placeholder stands for something without a text. -/
  | notRenderable (found : Kind)
  /-- A schema has no such key at a path. -/
  | missingKey (path : Path) (key : String)
  /-- A path goes on with an index or wildcard where the schema has no list. -/
  | notAKey (path : Path) (segment : Segment)
  /-- Data that should be an object is no map. -/
  | notAnObject (found : Kind)
  | integerOutOfRange
  /-- A map key is neither a string, an integer nor a boolean. -/
  | notAMapKey (found : Kind)
  /-- A map value comes without a key of its own. -/
  | valueWithoutKey
  /-- A type of number is not taken in at all. -/
  | unsupported (typeName : String)
  /-- The data refuses to be taken in, in its own words. -/
  | refused (reason : String)
deriving DecidableEq, Repr

namespace Fault

def category : Fault → Category
  | crowdedLine | singularLoop => .malformed
  | strayClose | mismatchedClose _ | unclosedLoop => .unbalanced
  | unresolvedName _ _ => .unresolved
  | ambiguousRelation _ _ _ | ambiguousAttribute _ _ => .ambiguous
  | missingAttribute _ | noAttributes _ _ | notAnElement _ => .attribute
  | missingKey _ _ | notAKey _ _ => .path
  | notRenderable _ => .unrenderable
  | notAnObject _ | integerOutOfRange | notAMapKey _ | valueWithoutKey | unsupported _
  | refused _ => .data

/-- The names that collide. -/
def candidates : Fault → List String
  | ambiguousRelation _ _ owners | ambiguousAttribute _ owners => owners
  | _ => []

/-- Names in backquotes, separated by commas. -/
def quoted (names : List String) : String :=
  ", ".intercalate (names.map fun name => s!"`{name}`")

def message : Fault → String
  | crowdedLine => "only one loop marker is allowed per line"
  | singularLoop => "expected plural relation name"
  | strayClose => "unexpected loop close marker, there is no open loop"
  | mismatchedClose openName =>
      s!"loop close marker does not match the open loop `{openName}`"
  | unclosedLoop => "unclosed loop open marker"
  | unresolvedName name plural =>
      s!"cannot resolve `{name}`, no bound object exposes `{plural}` or `{name}`"
  | ambiguousRelation relation level owners =>
      s!"relation `{relation}` is ambiguous at level {level}, found on {quoted owners}"
  | ambiguousAttribute name owners =>
      s!"attribute `{name}` is ambiguous, found on {quoted owners}"
  | missingAttribute name => s!"attribute `{name}` not found"
  | noAttributes next found => s!"cannot access attribute `{next}` of {found.name}"
  | notAnElement found => s!"expected relation element, found {found.name}"
  | notRenderable found =>
      s!"expected renderable value, but placeholder evaluated to {found.name}"
  | missingKey path key => s!"path `{path.text}` has no key `{key}` in the schema"
  | notAKey path segment => s!"path `{path.text}` expected a key, found `{segment.text}`"
  | notAnObject found => s!"expected map to convert into an object, found {found.name}"
  | integerOutOfRange => "out of range integral type conversion attempted"
  | notAMapKey found => s!"map key must be a string, found {found.name}"
  | valueWithoutKey => "map value serialized before its key"
  | unsupported typeName => s!"{typeName} is not supported"
  | refused reason => reason

end Fault

end GraphTemplate
