import GraphTemplate.Proofs.Schema.Sameness

/-!
# Sameness of values

Values are the same if they hold the same data.  This is symmetric and transitive, maps are the same
if they hold the same under the same keys, and values that are the same have shapes that are the
same.  A value is the same as itself unless there is a number in it that is a NaN.
-/

namespace GraphTemplate

theorem Binary64.same_trans {x y z : Binary64} (first : x.same y) (second : y.same z) :
    x.same z := by
  simp only [same, Bool.and_eq_true, Bool.or_eq_true, Bool.not_eq_true', beq_iff_eq] at *
  rcases first with ⟨⟨xNumber, _⟩, rfl | ⟨xZero, yZero⟩⟩
  · exact second
  · rcases second with ⟨⟨_, zNumber⟩, rfl | ⟨_, zZero⟩⟩
    · exact ⟨⟨xNumber, zNumber⟩, Or.inr ⟨xZero, yZero⟩⟩
    · exact ⟨⟨xNumber, zNumber⟩, Or.inr ⟨xZero, zZero⟩⟩

section

variable {α β γ : Type}

theorem forall₂_imp_of_mem {rel other : α → β → Prop} {items : List α} {others : List β}
    (each : List.Forall₂ rel items others)
    (imp : ∀ item ∈ items, ∀ second ∈ others, rel item second → other item second) :
    List.Forall₂ other items others := by
  induction each with
  | nil => exact .nil
  | cons first _ ih =>
      refine .cons (imp _ List.mem_cons_self _ List.mem_cons_self first) (ih ?_)
      exact fun item member second secondMem =>
        imp item (List.mem_cons_of_mem _ member) second (List.mem_cons_of_mem _ secondMem)

theorem forall₂_comp_of_mem {rel : α → β → Prop} {relOther : β → γ → Prop} {whole : α → γ → Prop}
    {items : List α} {others : List β} {lasts : List γ} (each : List.Forall₂ rel items others)
    (eachOther : List.Forall₂ relOther others lasts)
    (comp : ∀ item ∈ items, ∀ other ∈ others, ∀ last ∈ lasts,
      rel item other → relOther other last → whole item last) :
    List.Forall₂ whole items lasts := by
  induction each generalizing lasts with
  | nil =>
      cases eachOther
      exact .nil
  | cons first _ ih =>
      rcases eachOther with _ | ⟨firstOther, later⟩
      refine .cons (comp _ List.mem_cons_self _ List.mem_cons_self _ List.mem_cons_self first
        firstOther) (ih later ?_)
      exact fun item member other otherMem last lastMem => comp item (List.mem_cons_of_mem _ member)
        other (List.mem_cons_of_mem _ otherMem) last (List.mem_cons_of_mem _ lastMem)

end

namespace Value

mutual

/-- Somewhere in the value there is a number that is a NaN. -/
def hasNaN : Value → Bool
  | float x => x.isNaN
  | list items => itemsHaveNaN items
  | map fields => entriesHaveNaN fields
  | _ => false

def itemsHaveNaN : List Value → Bool
  | [] => false
  | item :: rest => item.hasNaN || itemsHaveNaN rest

def entriesHaveNaN : List (String × Value) → Bool
  | [] => false
  | (_, value) :: rest => value.hasNaN || entriesHaveNaN rest

end

theorem hasNaN_list (items : List Value) : (list items).hasNaN = items.any hasNaN := by
  rw [hasNaN]
  induction items with
  | nil => rfl
  | cons item rest ih => rw [itemsHaveNaN, ih, List.any_cons]

theorem hasNaN_map (fields : List (String × Value)) :
    (map fields).hasNaN = fields.any fun entry => entry.2.hasNaN := by
  rw [hasNaN]
  induction fields with
  | nil => rfl
  | cons entry rest ih => rw [entriesHaveNaN, ih, List.any_cons]

/-! ### Sameness by the kind of value -/

theorem same_float_left_iff {x : Binary64} {value : Value} :
    (float x).same value ↔ ∃ y, value = float y ∧ x.same y := by
  cases value <;> simp [Value.same]

/-- Apart from numbers with a point, scalars are the same only if they are equal. -/
theorem same_scalar_left_iff {scalar value : Value} (isScalar : scalar.isScalar)
    (noFloat : ∀ x, scalar ≠ float x) : scalar.same value ↔ scalar = value := by
  cases scalar with
  | float x => exact absurd rfl (noFloat x)
  | list items => cases isScalar
  | map fields => cases isScalar
  | _ => cases value <;> simp [Value.same]

theorem same_list_left_iff {items : List Value} {value : Value} :
    (list items).same value ↔
      ∃ others, value = list others ∧
        List.Forall₂ (fun item other => item.same other) items others := by
  cases value with
  | list others =>
      have each : sameItems items others ↔
          List.Forall₂ (fun item other => item.same other) items others := by
        induction items generalizing others with
        | nil => cases others <;> simp [sameItems]
        | cons item rest ih => cases others <;> simp [sameItems, ih]
      rw [Value.same, each]
      simp
  | _ => simp [Value.same]

theorem same_map_left_iff {fields : List (String × Value)} {value : Value}
    (distinct : (map fields).KeysDistinct) (otherDistinct : value.KeysDistinct) :
    (map fields).same value ↔ ∃ others, value = map others ∧
      ∀ key, Option.Rel (fun value other => value.same other)
        (Fields.get? fields key) (Fields.get? others key) := by
  cases value with
  | map others =>
      have entries : sameEntries fields others ↔ ∀ entry ∈ fields,
          ∃ other, Fields.get? others entry.1 = some other ∧ entry.2.same other := by
        clear distinct
        induction fields with
        | nil => simp [sameEntries]
        | cons entry rest ih =>
            rcases entry with ⟨key, value⟩
            simp only [sameEntries, Bool.and_eq_true, ih, List.forall_mem_cons]
            cases Fields.get? others key <;> simp
      rw [keysDistinct_map_iff] at distinct otherDistinct
      have keys := Fields.forall_rel_get?_iff (fun (value other : Value) => value.same other)
        distinct.1 otherDistinct.1
      rw [Value.same, Bool.and_eq_true, beq_iff_eq, entries, keys]
      simp
  | _ => simp [Value.same]

/-! ### Laws of sameness -/

/-- A value is a number with a point, another scalar, a list of values or a map to values. -/
@[elab_as_elim]
theorem induction_same {motive : Value → Prop} (float : ∀ x, motive (.float x))
    (scalar : ∀ value : Value, value.isScalar → (∀ x, value ≠ .float x) → motive value)
    (list : ∀ items, (∀ item ∈ items, motive item) → motive (.list items))
    (map : ∀ fields : List (String × Value), (∀ entry ∈ fields, motive entry.2) →
      motive (.map fields)) (value : Value) : motive value := by
  induction value using induction_nodes with
  | scalar value isScalar =>
      cases value with
      | float x => exact float x
      | list items => cases isScalar
      | map fields => cases isScalar
      | _ => exact scalar _ rfl (fun _ impossible => by cases impossible)
  | list items ih => exact list items ih
  | map fields ih => exact map fields ih

theorem same_self_iff {value : Value} (distinct : value.KeysDistinct) :
    value.same value ↔ value.hasNaN = false := by
  induction value using induction_same with
  | float x => rw [Value.same, Binary64.same_self, hasNaN, Bool.not_eq_true']
  | scalar value isScalar noFloat =>
      have numberless : value.hasNaN = false := by
        cases value with
        | float x => exact absurd rfl (noFloat x)
        | list items => cases isScalar
        | map fields => cases isScalar
        | _ => rfl
      simp [numberless, same_scalar_left_iff isScalar noFloat]
  | list items ih =>
      rw [keysDistinct_list_iff] at distinct
      have each : (list items).same (list items) ↔ ∀ item ∈ items, item.same item := by
        simp [same_list_left_iff, List.forall₂_same]
      rw [each, hasNaN_list, List.any_eq_false]
      refine forall₂_congr fun item member => ?_
      rw [ih item member (distinct item member), Bool.not_eq_true]
  | map fields ih =>
      have each : (map fields).same (map fields) ↔ ∀ entry ∈ fields, entry.2.same entry.2 := by
        have keys := Fields.forall_rel_get?_iff (fun (value other : Value) => value.same other)
          (keysDistinct_map_iff.mp distinct).1 (keysDistinct_map_iff.mp distinct).1
        have found : ∀ entry ∈ fields, Fields.get? fields entry.1 = some entry.2 :=
          fun entry => Fields.get?_eq_some_of_mem (keysDistinct_map_iff.mp distinct).1
        rw [same_map_left_iff distinct distinct]
        simp only [map.injEq, exists_eq_left', ← keys, true_and]
        refine forall₂_congr fun entry member => ?_
        simp [found entry member]
      rw [keysDistinct_map_iff] at distinct
      rw [each, hasNaN_map, List.any_eq_false]
      refine forall₂_congr fun entry member => ?_
      rw [ih entry member (distinct.2 entry member), Bool.not_eq_true]

theorem same_symm {value other : Value} (distinct : value.KeysDistinct)
    (otherDistinct : other.KeysDistinct) (same : value.same other) : other.same value := by
  induction value using induction_same generalizing other with
  | float x =>
      rcases same_float_left_iff.mp same with ⟨y, rfl, numbers⟩
      exact same_float_left_iff.mpr ⟨x, rfl, Binary64.same_comm x y ▸ numbers⟩
  | scalar value isScalar noFloat =>
      rcases (same_scalar_left_iff isScalar noFloat).mp same with rfl
      exact same
  | list items ih =>
      rcases same_list_left_iff.mp same with ⟨others, rfl, each⟩
      rw [keysDistinct_list_iff] at distinct otherDistinct
      refine same_list_left_iff.mpr ⟨items, rfl, (forall₂_imp_of_mem each ?_).flip⟩
      exact fun item member second secondMem =>
        ih item member (distinct item member) (otherDistinct second secondMem)
  | map fields ih =>
      rcases (same_map_left_iff distinct otherDistinct).mp same with ⟨others, rfl, each⟩
      refine (same_map_left_iff otherDistinct distinct).mpr ⟨fields, rfl, fun key => ?_⟩
      rw [keysDistinct_map_iff] at distinct otherDistinct
      apply Option.rel_swap (each key)
      intro value found second secondFound
      have member := Fields.mem_of_get?_eq_some found
      have secondMem := Fields.mem_of_get?_eq_some secondFound
      exact ih _ member (distinct.2 _ member) (otherDistinct.2 _ secondMem)

theorem same_trans {first second third : Value} (distinct : first.KeysDistinct)
    (secondDistinct : second.KeysDistinct) (thirdDistinct : third.KeysDistinct)
    (firstSecond : first.same second) (secondThird : second.same third) : first.same third := by
  induction first using induction_same generalizing second third with
  | float x =>
      rcases same_float_left_iff.mp firstSecond with ⟨y, rfl, numbers⟩
      rcases same_float_left_iff.mp secondThird with ⟨z, rfl, otherNumbers⟩
      exact same_float_left_iff.mpr ⟨z, rfl, Binary64.same_trans numbers otherNumbers⟩
  | scalar value isScalar noFloat =>
      rcases (same_scalar_left_iff isScalar noFloat).mp firstSecond with rfl
      exact secondThird
  | list items ih =>
      rcases same_list_left_iff.mp firstSecond with ⟨others, rfl, each⟩
      rcases same_list_left_iff.mp secondThird with ⟨lasts, rfl, eachOther⟩
      rw [keysDistinct_list_iff] at distinct secondDistinct thirdDistinct
      refine same_list_left_iff.mpr ⟨lasts, rfl, forall₂_comp_of_mem each eachOther ?_⟩
      exact fun item member other otherMem last lastMem => ih item member (distinct item member)
        (secondDistinct other otherMem) (thirdDistinct last lastMem)
  | map fields ih =>
      rcases (same_map_left_iff distinct secondDistinct).mp firstSecond with ⟨others, rfl, each⟩
      rcases (same_map_left_iff secondDistinct thirdDistinct).mp secondThird with
        ⟨lasts, rfl, eachOther⟩
      refine (same_map_left_iff distinct thirdDistinct).mpr ⟨lasts, rfl, fun key => ?_⟩
      rw [keysDistinct_map_iff] at distinct secondDistinct thirdDistinct
      apply Option.rel_comp (each key) (eachOther key)
      intro value found other otherFound last lastFound
      have member := Fields.mem_of_get?_eq_some found
      have otherMem := Fields.mem_of_get?_eq_some otherFound
      have lastMem := Fields.mem_of_get?_eq_some lastFound
      exact ih _ member (distinct.2 _ member) (secondDistinct.2 _ otherMem)
        (thirdDistinct.2 _ lastMem)

/-- Values that are the same have shapes that are the same. -/
theorem same_infer {value other : Value} (distinct : value.KeysDistinct)
    (otherDistinct : other.KeysDistinct) (same : value.same other) :
    (Schema.infer value).same (Schema.infer other) := by
  induction value using induction_same generalizing other with
  | float x =>
      rcases same_float_left_iff.mp same with ⟨y, rfl, _⟩
      simp [Schema.infer, Schema.same]
  | scalar value isScalar noFloat =>
      rcases (same_scalar_left_iff isScalar noFloat).mp same with rfl
      simp [Schema.infer_scalar isScalar, Schema.same]
  | list items ih =>
      rcases same_list_left_iff.mp same with ⟨others, rfl, each⟩
      rw [keysDistinct_list_iff] at distinct otherDistinct
      rw [Schema.infer_list, Schema.infer_list, Schema.same_list_iff]
      have start : Schema.scalar.KeysDistinct := trivial
      apply Schema.same_foldl_union start start
      · rw [List.forall_mem_map]
        exact fun item member => Schema.keysDistinct_infer (distinct item member)
      · rw [List.forall_mem_map]
        exact fun item member => Schema.keysDistinct_infer (otherDistinct item member)
      · exact Schema.same_scalar_iff.mpr rfl
      · rw [List.forall₂_map_left_iff, List.forall₂_map_right_iff]
        apply forall₂_imp_of_mem each
        exact fun item member second secondMem =>
          ih item member (distinct item member) (otherDistinct second secondMem)
  | map fields ih =>
      have inferred := Schema.keysDistinct_infer distinct
      have inferredOther := Schema.keysDistinct_infer otherDistinct
      rcases (same_map_left_iff distinct otherDistinct).mp same with ⟨others, rfl, each⟩
      rw [keysDistinct_map_iff] at distinct otherDistinct
      rw [Schema.infer_map] at inferred inferredOther
      rw [Schema.infer_map, Schema.infer_map, Schema.same_map_get?_iff inferred inferredOther]
      intro key
      rw [Fields.get?_map, Fields.get?_map]
      apply Option.rel_map (each key)
      intro value found second secondFound
      have member := Fields.mem_of_get?_eq_some found
      have secondMem := Fields.mem_of_get?_eq_some secondFound
      exact ih _ member (distinct.2 _ member) (otherDistinct.2 _ secondMem)

/-- Sameness is symmetric and transitive, and a value is the same as itself exactly if no number in
it is a NaN.  Maps are the same if they have the same keys with values that are the same, in
whatever order.  Values that are the same have shapes that are the same. -/
theorem same_isPartialEquivalence {first second third : Value} (firstDistinct : first.KeysDistinct)
    (secondDistinct : second.KeysDistinct) (thirdDistinct : third.KeysDistinct) :
    (first.same first ↔ first.hasNaN = false) ∧
    (first.same second → second.same first) ∧
    (first.same second → second.same third → first.same third) ∧
    (∀ fields others, first = map fields → second = map others →
      (first.same second ↔ ∀ key, Option.Rel (fun value other => value.same other)
        (Fields.get? fields key) (Fields.get? others key))) ∧
    (first.same second → (Schema.infer first).same (Schema.infer second)) := by
  refine ⟨same_self_iff firstDistinct, same_symm firstDistinct secondDistinct,
    same_trans firstDistinct secondDistinct thirdDistinct, ?_,
    same_infer firstDistinct secondDistinct⟩
  rintro fields others rfl rfl
  rw [same_map_left_iff firstDistinct secondDistinct]
  simp

def quietNaN : Binary64 :=
  ⟨0x7ff8000000000000⟩

/-- A NaN is not the same as itself. -/
theorem not_same_self_nan : ¬(float quietNaN).same (float quietNaN) := by
  decide

/-- A map with a list of a zero and a string, and the same with the other zero, in another order. -/
theorem same_isPartialEquivalence_zeros :
    let zeros := map [("a", list [float ⟨0⟩, string "x"]), ("b", none)]
    let reordered := map [("b", none), ("a", list [float ⟨0x8000000000000000⟩, string "x"])]
    zeros.KeysDistinct ∧ reordered.KeysDistinct ∧
      zeros.same zeros ∧ zeros.same reordered ∧ reordered.same zeros ∧ reordered.same reordered ∧
      (Schema.infer zeros).same (Schema.infer reordered) := by
  intro zeros reordered
  have distinct : zeros.KeysDistinct := by
    simp [zeros, KeysDistinct, EntriesKeysDistinct, ItemsKeysDistinct, Fields.Distinct, Fields.keys]
  have otherDistinct : reordered.KeysDistinct := by
    simp [reordered, KeysDistinct, EntriesKeysDistinct, ItemsKeysDistinct, Fields.Distinct,
      Fields.keys]
  have same : zeros.same reordered := by decide
  rcases same_isPartialEquivalence distinct otherDistinct distinct with
    ⟨self, symmetric, _, _, shapes⟩
  rcases same_isPartialEquivalence otherDistinct distinct otherDistinct with
    ⟨_, _, transitive, _, _⟩
  have back := symmetric same
  exact ⟨distinct, otherDistinct, self.mpr (by decide), same, back, transitive back same,
    shapes same⟩

end Value

end GraphTemplate
