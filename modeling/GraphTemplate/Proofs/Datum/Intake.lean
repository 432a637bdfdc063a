import GraphTemplate.Proofs.Datum.Calls
import GraphTemplate.Proofs.Tree.Nodes

/-!
# Data that is taken in

Data is representable if everything in it is acceptable where it stands, whatever is inside.  That is
so if and only if none of the calls of its source is refused, and then it is taken in.  Values are
representable, and they are taken in unchanged.
-/

namespace GraphTemplate

namespace Datum

/-! ### Data that can be taken in -/

/-- Some data is all or part of other data. -/
inductive Holds (data : Datum) : Datum → Prop where
  | whole : Holds data data
  | inside {part inner : Datum} : Holds data part → inner ∈ part.children → Holds data inner

/-- Whether data is acceptable where it stands, as far as it does not depend on what is inside. -/
def Acceptable : Datum → Prop
  | uint64 n => (n.toNat : Int) ≤ Int64.maxValue.toInt
  | int128 _ | uint128 _ | refusal _ => False
  | map parts =>
      (∀ part ∈ parts, part.1 = .key →
        ∃ made, part.2.toValue? = .ok made ∧ made.kind ∈ keyKinds) ∧
      ∀ front content back, parts = front ++ (.value, content) :: back →
        ∃ before key between, front = before ++ (.key, key) :: between ∧
          ∀ part ∈ between, part.1 ≠ .value
  | _ => True

/-- Nothing in the data is unacceptable: numbers fit, nothing refuses to be taken in, the keys of maps
make names, and a key comes between a map value and the one before it. -/
def Representable (data : Datum) : Prop :=
  ∀ part, data.Holds part → part.Acceptable

theorem Holds.trans {data part inner : Datum} (holds : data.Holds part) (further : part.Holds inner) :
    data.Holds inner := by
  induction further with
  | whole => exact holds
  | inside _ member ih => exact Holds.inside ih member

theorem Holds.eq_or_exists_child {data part : Datum} (holds : data.Holds part) :
    part = data ∨ ∃ child ∈ data.children, child.Holds part := by
  induction holds with
  | whole => exact Or.inl rfl
  | inside _ member ih =>
      rcases ih with rfl | ⟨child, childMem, held⟩
      · exact Or.inr ⟨_, member, Holds.whole⟩
      · exact Or.inr ⟨child, childMem, Holds.inside held member⟩

theorem representable_iff {data : Datum} :
    data.Representable ↔ data.Acceptable ∧ ∀ inner ∈ data.children, inner.Representable := by
  constructor
  · intro representable
    refine ⟨representable data Holds.whole, ?_⟩
    intro inner member part holds
    exact representable part ((Holds.inside Holds.whole member).trans holds)
  · rintro ⟨acceptable, inside⟩ part holds
    rcases holds.eq_or_exists_child with rfl | ⟨child, member, held⟩
    · exact acceptable
    · exact inside child member part held

/-- No call is refused. -/
def Clear (calls : List Call) : Prop :=
  ∀ call ∈ calls, call.fault? = Option.none

theorem clear_append {calls later : List Call} :
    Clear (calls ++ later) ↔ Clear calls ∧ Clear later :=
  List.forall_mem_append

theorem clear_cons {call : Call} {later : List Call} :
    Clear (call :: later) ↔ call.fault? = Option.none ∧ Clear later :=
  List.forall_mem_cons

theorem clear_iff_of_reports {α : Type} {calls : List Call} {result : Except Fault α}
    (reports : Reports calls result) : Clear calls ↔ ∃ value, result = .ok value := by
  rw [Clear, ← List.findSome?_eq_none_iff, reports.findSome?_eq_none_iff]

theorem clear_itemCalls {items : List Datum} :
    Clear (itemCalls items) ↔ ∀ item ∈ items, Clear item.calls := by
  induction items with
  | nil => simp [itemCalls, Clear]
  | cons item rest ih =>
      simp only [itemCalls, clear_append, List.forall_mem_cons, ih, calls]

theorem clear_fieldCalls {fields : List (String × Datum)} :
    Clear (fieldCalls fields) ↔ ∀ inner ∈ fields.map Prod.snd, Clear inner.calls := by
  induction fields with
  | nil => simp [fieldCalls, Clear]
  | cons field rest ih =>
      simp only [fieldCalls, clear_append, List.map_cons, List.forall_mem_cons, ih, calls]

/-- After these parts of a map, at the beginning of which a key may have waited already, a key waits
for its value. -/
def KeyWaits (keyed : Bool) (parts : List (MapPart × Datum)) : Prop :=
  (∃ before key between, parts = before ++ (.key, key) :: between ∧
    ∀ part ∈ between, part.1 ≠ .value) ∨
  keyed ∧ ∀ part ∈ parts, part.1 ≠ .value

theorem keyWaits_nil {keyed : Bool} : KeyWaits keyed [] ↔ keyed := by
  simp [KeyWaits]

theorem keyWaits_cons {keyed : Bool} {part : MapPart × Datum} {rest : List (MapPart × Datum)} :
    KeyWaits keyed (part :: rest) ↔ KeyWaits (part.1 = .key) rest := by
  rcases part with ⟨announced, content⟩
  constructor
  · rintro (⟨before, key, between, split, noValue⟩ | ⟨_, noValue⟩)
    · rcases before with _ | ⟨first, before⟩
      · simp only [List.nil_append, List.cons.injEq, Prod.mk.injEq] at split
        rcases split with ⟨⟨rfl, rfl⟩, rfl⟩
        exact Or.inr ⟨by simp, noValue⟩
      · simp only [List.cons_append, List.cons.injEq] at split
        rcases split with ⟨rfl, rfl⟩
        exact Or.inl ⟨before, key, between, rfl, noValue⟩
    · simp only [List.forall_mem_cons] at noValue
      cases announced with
      | key => exact Or.inr ⟨by simp, noValue.2⟩
      | value => exact absurd rfl noValue.1
  · rintro (⟨before, key, between, rfl, noValue⟩ | ⟨isKey, noValue⟩)
    · exact Or.inl ⟨(announced, content) :: before, key, between, rfl, noValue⟩
    · simp only [decide_eq_true_eq] at isKey
      subst isKey
      exact Or.inl ⟨[], content, rest, rfl, noValue⟩

theorem forall_values_cons_iff {part : MapPart × Datum} {rest : List (MapPart × Datum)}
    {motive : List (MapPart × Datum) → Prop} :
    (∀ front content back, part :: rest = front ++ (.value, content) :: back → motive front) ↔
      (part.1 = .value → motive []) ∧
      ∀ front content back, rest = front ++ (.value, content) :: back → motive (part :: front) := by
  constructor
  · intro each
    constructor
    · rintro isValue
      rcases part with ⟨_, content⟩
      cases isValue
      exact each [] content rest rfl
    · rintro front content back rfl
      exact each (part :: front) content back rfl
  · rintro ⟨first, later⟩ front content back split
    rcases front with _ | ⟨head, front⟩
    · simp only [List.nil_append, List.cons.injEq] at split
      rcases split with ⟨rfl, rfl⟩
      exact first rfl
    · simp only [List.cons_append, List.cons.injEq] at split
      rcases split with ⟨rfl, rfl⟩
      exact later front content back rfl

theorem clear_partCalls {keyed : Bool} {parts : List (MapPart × Datum)} :
    Clear (partCalls keyed parts) ↔
      (∀ inner ∈ parts.map Prod.snd, Clear inner.calls) ∧
      (∀ part ∈ parts, part.1 = .key → part.2.kind ∈ keyKinds) ∧
      ∀ front content back, parts = front ++ (.value, content) :: back → KeyWaits keyed front := by
  induction parts generalizing keyed with
  | nil => simp [partCalls, Clear]
  | cons part rest ih =>
      simp only [forall_values_cons_iff, keyWaits_cons, keyWaits_nil, List.map_cons,
        List.forall_mem_cons]
      rcases part with ⟨_ | _, content⟩
      · have named : (Call.key content.kind).fault? = Option.none ↔ content.kind ∈ keyKinds := by
          simp [Call.fault?]
        change Clear (content.calls ++ .key content.kind :: partCalls true rest) ↔ _
        simp only [clear_append, clear_cons, named, ih]
        simp [and_assoc, and_left_comm]
      · have waited : (Call.value keyed).fault? = Option.none ↔ keyed := by
          simp [Call.fault?]
        change Clear (.value keyed :: content.calls ++ partCalls false rest) ↔ _
        simp only [List.cons_append, clear_append, clear_cons, waited, ih]
        simp [and_assoc, and_left_comm]

/-- Where the data inside a map is taken in, the kinds of its keys are those of the values they
make. -/
theorem keys_named_iff {parts : List (MapPart × Datum)}
    (clear : ∀ inner ∈ parts.map Prod.snd, Clear inner.calls) :
    (∀ part ∈ parts, part.1 = .key → part.2.kind ∈ keyKinds) ↔
      ∀ part ∈ parts, part.1 = .key →
        ∃ made, part.2.toValue? = .ok made ∧ made.kind ∈ keyKinds := by
  apply forall₂_congr
  intro part member
  rcases (clear_iff_of_reports (reports_toValue? part.2)).mp
    (clear part.2 (List.mem_map_of_mem member)) with ⟨made, taken⟩
  simp [taken, kind_of_toValue? taken]

/-- Data is representable if none of its calls is refused. -/
theorem clear_calls_iff (data : Datum) : Clear data.calls ↔ data.Representable := by
  induction data using induction_children with
  | step data ih =>
      have inside : (∀ inner ∈ data.children, inner.Representable) ↔
          ∀ inner ∈ data.children, Clear inner.calls :=
        forall₂_congr fun inner member => (ih inner member).symm
      rw [representable_iff, inside, calls, clear_cons]
      cases data with
      | uint64 n => simp [Call.fault?, Acceptable, innerCalls, children, Clear]
      | int128 _ | uint128 _ | refusal _ => simp [Call.fault?, Acceptable]
      | some content | newtypeStruct content | newtypeVariant _ content =>
          simp [Call.fault?, Acceptable, innerCalls, children, calls]
      | seq items | tuple items | tupleStruct items | tupleVariant _ items =>
          simp [Call.fault?, Acceptable, innerCalls, children, clear_itemCalls]
      | map parts =>
          have waits : ∀ front : List (MapPart × Datum), KeyWaits false front ↔
              ∃ before key between, front = before ++ (.key, key) :: between ∧
                ∀ part ∈ between, part.1 ≠ .value := by
            simp [KeyWaits]
          simp only [innerCalls, children, clear_partCalls, Acceptable, waits]
          constructor
          · rintro ⟨_, clear, named, waiting⟩
            exact ⟨⟨(keys_named_iff clear).mp named, waiting⟩, clear⟩
          · rintro ⟨⟨named, waiting⟩, clear⟩
            exact ⟨rfl, clear, (keys_named_iff clear).mpr named, waiting⟩
      | struct fields | structVariant _ fields =>
          simp [Call.fault?, Acceptable, innerCalls, children, clear_fieldCalls]
      | _ => simp [Call.fault?, Acceptable, innerCalls, children, Clear]

/-! ### Values as sources -/

theorem itemsToValues?_ofItems {items : List Value}
    (each : ∀ item ∈ items, (ofValue item).toValue? = .ok item) :
    itemsToValues? (ofItems items) = .ok items := by
  induction items with
  | nil => simp [ofItems, itemsToValues?]
  | cons item rest ih =>
      simp only [List.forall_mem_cons] at each
      simp only [ofItems, itemsToValues?, each.1, ih each.2]
      rfl

theorem partsToFields?_ofEntries {fields : List (String × Value)} {done : Fields Value}
    (each : ∀ entry ∈ fields, (ofValue entry.2).toValue? = .ok entry.2)
    (distinct : Fields.Distinct (done ++ fields)) :
    partsToFields? Option.none done (ofEntries fields) = .ok (done ++ fields) := by
  induction fields generalizing done with
  | nil => simp [ofEntries, partsToFields?]
  | cons entry rest ih =>
      rcases entry with ⟨key, value⟩
      simp only [List.forall_mem_cons] at each
      have fresh : key ∉ done.keys := by
        simp only [Fields.Distinct, Fields.keys, List.map_append, List.nodup_append] at distinct
        intro known
        exact distinct.2.2 key known key (by simp) rfl
      have added : done.insert key value = done ++ [(key, value)] := Fields.insert_of_notMem fresh
      have whole : Fields.Distinct (done.insert key value ++ rest) := by
        simpa [added] using distinct
      have later := ih each.2 whole
      simp only [ofEntries, partsToFields?, toValue?, mapKey?, each.1]
      simp only [added, List.append_assoc, List.singleton_append] at later
      simpa [Bind.bind, Except.bind, added] using later

/-- A value is taken in as it is. -/
theorem toValue?_ofValue {value : Value} (distinct : value.KeysDistinct) :
    (ofValue value).toValue? = .ok value := by
  induction value using Value.induction_nodes with
  | scalar value isScalar =>
      cases value with
      | list items => cases isScalar
      | map fields => cases isScalar
      | _ => simp [ofValue, toValue?, toValue]
  | list items ih =>
      rw [Value.keysDistinct_list_iff] at distinct
      have inside := itemsToValues?_ofItems fun item member => ih item member (distinct item member)
      simp only [ofValue, toValue?, inside]
      rfl
  | map fields ih =>
      rw [Value.keysDistinct_map_iff] at distinct
      have each : ∀ entry ∈ fields, (ofValue entry.2).toValue? = .ok entry.2 :=
        fun entry member => ih entry member (distinct.2 entry member)
      have inside : partsToFields? Option.none [] (ofEntries fields) = .ok fields :=
        partsToFields?_ofEntries each distinct.1
      simp only [ofValue, toValue?, inside]
      rfl

theorem category_of_fault? {call : Call} {fault : Fault} (refused : call.fault? = Option.some fault) :
    fault.category = .data := by
  cases call with
  | data content =>
      cases content with
      | uint64 n =>
          simp only [Call.fault?, Option.ite_none_left_eq_some, Option.some.injEq] at refused
          rcases refused with ⟨_, rfl⟩
          rfl
      | int128 _ | uint128 _ | refusal _ =>
          cases refused
          rfl
      | _ => cases refused
  | key made =>
      simp only [Call.fault?, Option.ite_none_left_eq_some, Option.some.injEq] at refused
      rcases refused with ⟨_, rfl⟩
      rfl
  | value keyed =>
      simp only [Call.fault?, Option.ite_none_left_eq_some, Option.some.injEq] at refused
      rcases refused with ⟨_, rfl⟩
      rfl

/-- Data is taken in if and only if everything in it can be taken in where it stands.  Otherwise the
fault is that of the first call that is refused, in the order in which the source makes them, and it
concerns the data.  A value that is taken in from itself is unchanged. -/
theorem toValue?_reports_first_refusal (data : Datum) :
    ((∃ value, data.toValue? = .ok value) ↔ data.Representable) ∧
    (∀ fault, data.toValue? = .error fault ↔
      data.calls.findSome? Call.fault? = Option.some fault ∧ fault.category = .data) ∧
    ∀ value : Value, value.KeysDistinct → (ofValue value).toValue? = .ok value := by
  have reports := reports_toValue? data
  refine ⟨?_, ?_, ?_⟩
  · rw [← clear_iff_of_reports reports, clear_calls_iff]
  · intro fault
    rw [reports fault]
    constructor
    · intro first
      rcases List.exists_of_findSome?_eq_some first with ⟨call, _, refused⟩
      exact ⟨first, category_of_fault? refused⟩
    · exact And.left
  · exact fun value distinct => toValue?_ofValue distinct

/-- A map that forgets a key for another one and then announces a second value for it, which would not
fit. -/
def secondValue : Datum :=
  map [(.key, string "first"), (.key, newtypeStruct (bool true)), (.value, unit),
    (.value, uint64 9223372036854775808)]

def floatsInMaps : Value :=
  .map [("z", .list [.map [("y", .float ⟨0x7ff8000000000001⟩), ("x", .none)]]),
    ("a", .float ⟨0x8000000000000000⟩)]

/-- The second value is reported before its number is, and floats are taken in bit by bit. -/
theorem toValue?_secondValue :
    secondValue.toValue? = .error .valueWithoutKey ∧ ¬ secondValue.Representable ∧
      floatsInMaps.KeysDistinct ∧ (ofValue floatsInMaps).toValue? = .ok floatsInMaps := by
  rcases toValue?_reports_first_refusal secondValue with ⟨taken, refused, values⟩
  have failed : secondValue.toValue? = .error .valueWithoutKey := (refused _).mpr ⟨rfl, rfl⟩
  have distinct : floatsInMaps.KeysDistinct := by
    simp [floatsInMaps, Value.KeysDistinct, Value.ItemsKeysDistinct, Value.EntriesKeysDistinct,
      Fields.Distinct, Fields.keys]
  refine ⟨failed, ?_, distinct, values floatsInMaps distinct⟩
  rw [← taken, failed]
  rintro ⟨_, impossible⟩
  cases impossible

end Datum

end GraphTemplate
