import GraphTemplate.Datum

/-!
# The calls of a source

A source announces its data call by call.  Each call is accepted or refused on its own: by the size of
a number, by the kind of value that a map key makes, and by whether a key waits for a map value.
Taking the data in stops at the first call that is refused, with its fault.
-/

namespace GraphTemplate

namespace Datum

/-! ### Calls -/

/-- What a source calls for when it announces its data. -/
inductive Call where
  /-- Some data, before anything inside it. -/
  | data (content : Datum)
  /-- The data of a map key is complete and makes a value of this kind. -/
  | key (made : Kind)
  /-- A map value, for a key that waits for it or for none. -/
  | value (keyed : Bool)

/-- The kinds of values that make map keys. -/
def keyKinds : List Kind :=
  [.string, .integer, .bool]

/-- The fault of a call that is refused. -/
def Call.fault? : Call → Option Fault
  | data (uint64 n) =>
      if (n.toNat : Int) ≤ Int64.maxValue.toInt then Option.none
      else Option.some .integerOutOfRange
  | data (int128 _) => Option.some (.unsupported "i128")
  | data (uint128 _) => Option.some (.unsupported "u128")
  | data (refusal reason) => Option.some (.refused reason)
  | data _ => Option.none
  | key made =>
      if made ∈ keyKinds then Option.none else Option.some (.notAMapKey made)
  | value keyed => if keyed then Option.none else Option.some .valueWithoutKey

/-- The kind of the value that data makes if it is taken in. -/
def kind : Datum → Kind
  | bool _ => .bool
  | int8 _ | int16 _ | int32 _ | int64 _ | uint8 _ | uint16 _ | uint32 _ | uint64 _ => .integer
  | int128 _ | uint128 _ => .integer
  | float32 _ | float64 _ => .float
  | char _ | string _ | unitVariant _ => .string
  | bytes _ | seq _ | tuple _ | tupleStruct _ => .list
  | none | unit | unitStruct | refusal _ => .none
  | some content | newtypeStruct content => content.kind
  | newtypeVariant _ _ | tupleVariant _ _ | map _ | struct _ | structVariant _ _ => .map

mutual

/-- The calls for what is inside some data, in order. -/
def innerCalls : Datum → List Call
  | some content | newtypeStruct content | newtypeVariant _ content =>
      .data content :: content.innerCalls
  | seq items | tuple items | tupleStruct items | tupleVariant _ items => itemCalls items
  | map parts => partCalls false parts
  | struct fields | structVariant _ fields => fieldCalls fields
  | _ => []

def itemCalls : List Datum → List Call
  | [] => []
  | item :: rest => (.data item :: item.innerCalls) ++ itemCalls rest

/-- The calls for the parts of a map, after which a key waits for its value or none does. -/
def partCalls (keyed : Bool) : List (MapPart × Datum) → List Call
  | [] => []
  | (.key, content) :: rest =>
      (.data content :: content.innerCalls) ++ .key content.kind :: partCalls true rest
  | (.value, content) :: rest =>
      .value keyed :: (.data content :: content.innerCalls) ++ partCalls false rest

def fieldCalls : List (String × Datum) → List Call
  | [] => []
  | (_, content) :: rest => (.data content :: content.innerCalls) ++ fieldCalls rest

end

/-- The calls for some data, in order. -/
def calls (data : Datum) : List Call :=
  .data data :: data.innerCalls

/-- The result fails if one of the calls is refused, with the fault of the first one. -/
def Reports {α : Type} (calls : List Call) (result : Except Fault α) : Prop :=
  ∀ fault, result = .error fault ↔ calls.findSome? Call.fault? = Option.some fault

namespace Reports

variable {α β : Type} {calls later : List Call} {call : Call} {result : Except Fault α}

theorem ok (value : α) : Reports [] (.ok value : Except Fault α) := by
  intro fault
  simp

theorem accepted (accepts : call.fault? = Option.none) (reports : Reports calls result) :
    Reports (call :: calls) result := by
  intro fault
  rw [List.findSome?_cons, accepts]
  exact reports fault

theorem refused {fault : Fault} (refuses : call.fault? = Option.some fault) :
    Reports (call :: calls) (.error fault : Except Fault α) := by
  intro other
  simp [refuses]

/-- A result that reports its calls is a value if and only if none of them is refused. -/
theorem findSome?_eq_none_iff (reports : Reports calls result) :
    calls.findSome? Call.fault? = Option.none ↔ ∃ value, result = .ok value := by
  cases result with
  | error fault =>
      have found := (reports fault).mp rfl
      simp [found]
  | ok value =>
      have nothing : calls.findSome? Call.fault? = Option.none := by
        apply Option.eq_none_iff_forall_ne_some.mpr
        intro fault found
        cases (reports fault).mpr found
      simp [nothing]

theorem bind {next : α → Except Fault β} (reports : Reports calls result)
    (after : ∀ value, result = .ok value → Reports later (next value)) :
    Reports (calls ++ later) (result >>= next) := by
  intro fault
  rw [List.findSome?_append]
  cases result with
  | error first =>
      have found := (reports first).mp rfl
      rw [found]
      simp [Bind.bind, Except.bind]
  | ok value =>
      rw [reports.findSome?_eq_none_iff.mpr ⟨value, rfl⟩, Option.none_or]
      exact after value rfl fault

theorem map (reports : Reports calls result) (f : α → β) :
    Reports calls (do return f (← result)) := by
  have last : ∀ value, result = .ok value → Reports [] (pure (f value) : Except Fault β) :=
    fun value _ => ok (f value)
  rw [← List.append_nil calls]
  exact reports.bind last

end Reports

/-! ### Data inside data -/

/-- The data that some data holds directly. -/
def children : Datum → List Datum
  | some content | newtypeStruct content | newtypeVariant _ content => [content]
  | seq items | tuple items | tupleStruct items | tupleVariant _ items => items
  | map parts => parts.map Prod.snd
  | struct fields | structVariant _ fields => fields.map Prod.snd
  | _ => []

theorem sizeOf_snd_lt_of_mem {α : Type} [SizeOf α] {entries : List (α × Datum)} {inner : Datum}
    (member : inner ∈ entries.map Prod.snd) : sizeOf inner < sizeOf entries := by
  rcases List.mem_map.mp member with ⟨⟨first, second⟩, entryMem, rfl⟩
  have smaller := List.sizeOf_lt_of_mem entryMem
  simp only [Prod.mk.sizeOf_spec] at smaller ⊢
  omega

theorem sizeOf_lt_of_mem_children {data inner : Datum} (member : inner ∈ data.children) :
    sizeOf inner < sizeOf data := by
  cases data with
  | some content | newtypeStruct content | newtypeVariant _ content =>
      cases List.mem_singleton.mp member
      simp only [some.sizeOf_spec, newtypeStruct.sizeOf_spec, newtypeVariant.sizeOf_spec]
      omega
  | seq items | tuple items | tupleStruct items | tupleVariant _ items =>
      have smaller : sizeOf inner < sizeOf items := List.sizeOf_lt_of_mem member
      simp only [seq.sizeOf_spec, tuple.sizeOf_spec, tupleStruct.sizeOf_spec, tupleVariant.sizeOf_spec]
      omega
  | map parts =>
      have smaller : sizeOf inner < sizeOf parts := sizeOf_snd_lt_of_mem member
      simp only [map.sizeOf_spec]
      omega
  | struct fields | structVariant _ fields =>
      have smaller : sizeOf inner < sizeOf fields := sizeOf_snd_lt_of_mem member
      simp only [struct.sizeOf_spec, structVariant.sizeOf_spec]
      omega
  | _ => cases member

/-- What follows for data from what it holds directly is true of all data. -/
@[elab_as_elim]
theorem induction_children {motive : Datum → Prop}
    (step : ∀ data, (∀ inner ∈ data.children, motive inner) → motive data) (data : Datum) :
    motive data :=
  step data fun inner member =>
    have := sizeOf_lt_of_mem_children member
    induction_children step inner
termination_by sizeOf data

theorem exists_of_map_eq_ok {α β : Type} {result : Except Fault α} {f : α → β} {value : β}
    (made : (do return f (← result)) = .ok value) : ∃ inner, result = .ok inner ∧ f inner = value := by
  cases result with
  | error fault => cases made
  | ok inner => exact ⟨inner, rfl, Except.ok.inj made⟩

/-- Data that is taken in makes a value of its kind. -/
theorem kind_of_toValue? {data : Datum} {value : Value} (taken : data.toValue? = .ok value) :
    value.kind = data.kind := by
  induction data using induction_children with
  | step data ih =>
      cases data with
      | some content | newtypeStruct content =>
          simp only [toValue?] at taken
          exact ih content (by simp [children]) taken
      | uint64 n =>
          simp only [toValue?] at taken
          split at taken
          · cases taken
            rfl
          · cases taken
      | newtypeVariant _ _ | seq _ | tuple _ | tupleStruct _ | tupleVariant _ _ | map _ | struct _
      | structVariant _ _ =>
          simp only [toValue?] at taken
          rcases exists_of_map_eq_ok taken with ⟨_, _, rfl⟩
          rfl
      | int128 _ | uint128 _ | refusal _ => cases taken
      | _ =>
          cases taken
          rfl

/-! ### The first call that is refused -/

theorem reports_itemsToValues? {items : List Datum}
    (each : ∀ item ∈ items, Reports item.calls item.toValue?) :
    Reports (itemCalls items) (itemsToValues? items) := by
  induction items with
  | nil => exact Reports.ok []
  | cons item rest ih =>
      simp only [List.forall_mem_cons] at each
      simp only [itemCalls, itemsToValues?]
      apply each.1.bind
      intro value _
      exact (ih each.2).map (value :: ·)

/-- A key of the kind of a string, an integer or a boolean has a name. -/
theorem reports_mapKey? (value : Value) : Reports [.key value.kind] (mapKey? value) := by
  cases value with
  | string _ | integer _ | bool _ => exact Reports.accepted rfl (Reports.ok _)
  | _ => exact Reports.refused rfl

theorem reports_partsToFields? {parts : List (MapPart × Datum)}
    (each : ∀ inner ∈ parts.map Prod.snd, Reports inner.calls inner.toValue?)
    (waiting : Option String) (done : Fields Value) :
    Reports (partCalls waiting.isSome parts) (partsToFields? waiting done parts) := by
  induction parts generalizing waiting done with
  | nil => exact Reports.ok done
  | cons part rest ih =>
      simp only [List.map_cons, List.forall_mem_cons] at each
      rcases part with ⟨_ | _, content⟩
      · simp only [partCalls, partsToFields?]
        apply each.1.bind
        intro value taken
        -- The call for the complete key knows its kind from the data alone.
        rw [← kind_of_toValue? taken]
        apply (reports_mapKey? value).bind
        intro key _
        exact ih each.2 (Option.some key) done
      · simp only [partCalls, partsToFields?]
        cases waiting with
        | none => exact Reports.refused rfl
        | some key =>
            apply Reports.accepted rfl
            apply each.1.bind
            intro value _
            exact ih each.2 Option.none (done.insert key value)

theorem reports_fieldsToFields? {fields : List (String × Datum)}
    (each : ∀ inner ∈ fields.map Prod.snd, Reports inner.calls inner.toValue?)
    (done : Fields Value) : Reports (fieldCalls fields) (fieldsToFields? done fields) := by
  induction fields generalizing done with
  | nil => exact Reports.ok done
  | cons field rest ih =>
      simp only [List.map_cons, List.forall_mem_cons] at each
      simp only [fieldCalls, fieldsToFields?]
      apply each.1.bind
      intro value _
      exact ih each.2 (done.insert field.1 value)

theorem fits_int64_iff {n : UInt64} : (n.toNat : Int) ≤ Int64.maxValue.toInt ↔ n.toNat < twoPow 63 := by
  have bound : Int64.maxValue.toInt = 9223372036854775807 := by decide
  have power : twoPow 63 = 9223372036854775808 := by decide
  rw [bound, power]
  omega

/-- Taking data in stops at the first call that is refused. -/
theorem reports_toValue? (data : Datum) : Reports data.calls data.toValue? := by
  induction data using induction_children with
  | step data ih =>
      cases data with
      | uint64 n =>
          simp only [toValue?]
          split
          · rename_i small
            apply Reports.accepted _ (Reports.ok _)
            simp [Call.fault?, fits_int64_iff, small]
          · rename_i large
            apply Reports.refused
            simp [Call.fault?, fits_int64_iff, large]
      | int128 _ | uint128 _ | refusal _ => exact Reports.refused rfl
      | some content | newtypeStruct content =>
          have inside := ih content (by simp [children])
          simp only [calls, innerCalls, toValue?]
          exact Reports.accepted rfl inside
      | newtypeVariant variant content =>
          have inside := ih content (by simp [children])
          simp only [calls, innerCalls, toValue?]
          exact Reports.accepted rfl (inside.map _)
      | seq items | tuple items | tupleStruct items | tupleVariant _ items =>
          have inside := reports_itemsToValues? ih
          simp only [calls, innerCalls, toValue?]
          exact Reports.accepted rfl (inside.map _)
      | map parts =>
          have inside := reports_partsToFields? ih Option.none []
          simp only [calls, innerCalls, toValue?]
          exact Reports.accepted rfl (inside.map _)
      | struct fields | structVariant _ fields =>
          have inside := reports_fieldsToFields? ih []
          simp only [calls, innerCalls, toValue?]
          exact Reports.accepted rfl (inside.map _)
      | _ => exact Reports.accepted rfl (Reports.ok _)

end Datum

end GraphTemplate
