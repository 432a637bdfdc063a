import GraphTemplate.Fault
import GraphTemplate.Value

/-!
# Data from typed sources

A `Datum` describes typed data as its source announces it, part by part: sized numbers, structures,
variants, and maps whose keys and values are announced one at a time.  `Datum.toValue?` takes it in
as a value.  It stops at the first part that has no place in a value.
-/

namespace GraphTemplate

/-- What a map announces: a key, or the value for the key announced before it. -/
inductive MapPart where
  | key
  | value
deriving DecidableEq, Repr

inductive Datum where
  | bool (b : Bool)
  | int8 (n : Int8)
  | int16 (n : Int16)
  | int32 (n : Int32)
  | int64 (n : Int64)
  | uint8 (n : UInt8)
  | uint16 (n : UInt16)
  | uint32 (n : UInt32)
  | uint64 (n : UInt64)
  | int128 (n : Int)
  | uint128 (n : Nat)
  | float32 (x : Binary32)
  | float64 (x : Binary64)
  | char (c : Char)
  | string (s : String)
  | bytes (content : List UInt8)
  | none
  | some (content : Datum)
  | unit
  | unitStruct
  | newtypeStruct (content : Datum)
  | unitVariant (variant : String)
  | newtypeVariant (variant : String) (content : Datum)
  | seq (items : List Datum)
  | tuple (items : List Datum)
  | tupleStruct (items : List Datum)
  | tupleVariant (variant : String) (items : List Datum)
  | map (parts : List (MapPart × Datum))
  | struct (fields : List (String × Datum))
  | structVariant (variant : String) (fields : List (String × Datum))
  /-- Data that refuses to be taken in. -/
  | refusal (reason : String)

namespace Datum

/-- The name that a value makes as a map key. -/
def mapKey? : Value → Except Fault String
  | .string s => .ok s
  | .integer n => .ok (toString n.toInt)
  | .bool b => .ok (if b then "true" else "false")
  | value => .error (.notAMapKey value.kind)

mutual

/-- Takes data in as a value, or reports the first part of it that cannot be taken in. -/
def toValue? : Datum → Except Fault Value
  | bool b => .ok (toValue b)
  | int8 n => .ok (toValue n)
  | int16 n => .ok (toValue n)
  | int32 n => .ok (toValue n)
  | int64 n => .ok (toValue n)
  | uint8 n => .ok (toValue n)
  | uint16 n => .ok (toValue n)
  | uint32 n => .ok (toValue n)
  | uint64 n =>
      if n.toNat < twoPow 63 then .ok (.integer n.toInt64) else .error .integerOutOfRange
  | int128 _ => .error (.unsupported "i128")
  | uint128 _ => .error (.unsupported "u128")
  | float32 x => .ok (toValue x)
  | float64 x => .ok (toValue x)
  | char c => .ok (.string (String.singleton c))
  | string s => .ok (.string s)
  | bytes content => .ok (toValue content)
  | none | unit | unitStruct => .ok .none
  | some content | newtypeStruct content => content.toValue?
  | unitVariant variant => .ok (.string variant)
  | newtypeVariant variant content => do
      return .tagged (Option.some variant) (← content.toValue?)
  | seq items | tuple items | tupleStruct items => do return .list (← itemsToValues? items)
  | tupleVariant variant items => do
      return .tagged (Option.some variant) (.list (← itemsToValues? items))
  | map parts => do return .map (← partsToFields? Option.none [] parts)
  | struct fields => do return .map (← fieldsToFields? [] fields)
  | structVariant variant fields => do
      return .tagged (Option.some variant) (.map (← fieldsToFields? [] fields))
  | refusal reason => .error (.refused reason)

def itemsToValues? : List Datum → Except Fault (List Value)
  | [] => .ok []
  | item :: rest => do
      let value ← item.toValue?
      return value :: (← itemsToValues? rest)

/-- Takes the parts of a map in, in order, after the key that still waits for its value and the
entries that are complete.  A key that is followed by another key is forgotten. -/
def partsToFields? (waiting : Option String) (done : Fields Value) :
    List (MapPart × Datum) → Except Fault (Fields Value)
  | [] => .ok done
  | (.key, content) :: rest => do
      let key ← mapKey? (← content.toValue?)
      partsToFields? (Option.some key) done rest
  | (.value, content) :: rest =>
      match waiting with
      | Option.none => .error .valueWithoutKey
      | Option.some key => do
          let value ← content.toValue?
          partsToFields? Option.none (done.insert key value) rest

/-- Takes the fields of a structure in, in order, after those that are complete. -/
def fieldsToFields? (done : Fields Value) :
    List (String × Datum) → Except Fault (Fields Value)
  | [] => .ok done
  | (name, content) :: rest => do
      let value ← content.toValue?
      fieldsToFields? (done.insert name value) rest

end

/-- The parts of a map that announces complete entries. -/
def entryParts (entries : List (Datum × Datum)) : List (MapPart × Datum) :=
  entries.flatMap fun entry => [(.key, entry.1), (.value, entry.2)]

mutual

/-- The data that a value announces as a source of its own. -/
def ofValue : Value → Datum
  | .none => unit
  | .bool b => bool b
  | .integer n => int64 n
  | .float x => float64 x
  | .string s => string s
  | .list items => seq (ofItems items)
  | .map fields => map (ofEntries fields)

def ofItems : List Value → List Datum
  | [] => []
  | item :: rest => ofValue item :: ofItems rest

def ofEntries : List (String × Value) → List (MapPart × Datum)
  | [] => []
  | (key, value) :: rest => (.key, string key) :: (.value, ofValue value) :: ofEntries rest

end

end Datum

end GraphTemplate
