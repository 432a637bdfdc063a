import GraphTemplate.Fields
import GraphTemplate.Kind
import GraphTemplate.Number.Decimal

/-!
# Values

The trees of plain data from which objects are made: scalars, lists, and maps whose entries keep
their order.  `Value.same` is equality of data: numbers are compared numerically, and the order of
map entries does not count.  `Value.KeysDistinct` says that no map in a value repeats a key; every
function of this library that builds a value keeps it.
-/

namespace GraphTemplate

inductive Value where
  | none
  | bool (b : Bool)
  | integer (n : Int64)
  | float (x : Binary64)
  | string (s : String)
  | list (items : List Value)
  | map (fields : List (String × Value))

namespace Value

def kind : Value → Kind
  | none => .none
  | bool _ => .bool
  | integer _ => .integer
  | float _ => .float
  | string _ => .string
  | list _ => .list
  | map _ => .map

def isScalar : Value → Bool
  | list _ | map _ => false
  | _ => true

def isMap : Value → Bool
  | map _ => true
  | _ => false

/-- The text that stands for a value in a line.  Lists and maps have none. -/
def text? : Value → Option String
  | none => some ""
  | bool b => some (if b then "true" else "false")
  | integer n => some (toString n.toInt)
  | float x => some x.text
  | string s => some s
  | list _ | map _ => Option.none

theorem text?_isSome (v : Value) : v.text?.isSome = v.isScalar := by
  cases v <;> rfl

mutual

/-- The same data.  Maps are the same if they have equally many entries and every key of the first
has the same value in the second. -/
def same : Value → Value → Bool
  | none, none => true
  | bool a, bool b => a == b
  | integer m, integer n => m == n
  | float x, float y => x.same y
  | string s, string t => s == t
  | list xs, list ys => sameItems xs ys
  | map xs, map ys => xs.length == ys.length && sameEntries xs ys
  | _, _ => false

def sameItems : List Value → List Value → Bool
  | [], [] => true
  | x :: xs, y :: ys => x.same y && sameItems xs ys
  | _, _ => false

def sameEntries : List (String × Value) → List (String × Value) → Bool
  | [], _ => true
  | (key, x) :: xs, ys =>
      (match Fields.get? ys key with
        | some y => x.same y
        | Option.none => false) && sameEntries xs ys

end

mutual

/-- No map in the value repeats a key. -/
def KeysDistinct : Value → Prop
  | list items => ItemsKeysDistinct items
  | map fields => Fields.Distinct fields ∧ EntriesKeysDistinct fields
  | _ => True

def ItemsKeysDistinct : List Value → Prop
  | [] => True
  | item :: rest => item.KeysDistinct ∧ ItemsKeysDistinct rest

def EntriesKeysDistinct : List (String × Value) → Prop
  | [] => True
  | (_, value) :: rest => value.KeysDistinct ∧ EntriesKeysDistinct rest

end

/-- A list of values under the name of a variant, if there is one. -/
def tagged (variant : Option String) (value : Value) : Value :=
  match variant with
  | some name => map [(name, value)]
  | Option.none => value

end Value

/-- Types of data with an evident value. -/
class ToValue (α : Type) where
  toValue : α → Value

export ToValue (toValue)

instance : ToValue Value := ⟨id⟩
instance : ToValue Bool := ⟨.bool⟩
instance : ToValue Int8 := ⟨fun n => .integer n.toInt64⟩
instance : ToValue Int16 := ⟨fun n => .integer n.toInt64⟩
instance : ToValue Int32 := ⟨fun n => .integer n.toInt64⟩
instance : ToValue Int64 := ⟨.integer⟩
instance : ToValue UInt8 := ⟨fun n => .integer n.toUInt64.toInt64⟩
instance : ToValue UInt16 := ⟨fun n => .integer n.toUInt64.toInt64⟩
instance : ToValue UInt32 := ⟨fun n => .integer n.toUInt64.toInt64⟩
instance : ToValue Binary32 := ⟨fun x => .float x.widen⟩
instance : ToValue Binary64 := ⟨.float⟩
instance : ToValue String := ⟨.string⟩

instance {α : Type} [ToValue α] : ToValue (List α) :=
  ⟨fun items => .list (items.map toValue)⟩

instance {α : Type} [ToValue α] : ToValue (Fields α) :=
  ⟨fun fields => .map (fields.map fun entry => (entry.1, toValue entry.2))⟩

end GraphTemplate
