import GraphTemplate.Proofs.Relation.Elements
import GraphTemplate.Tree
import Mathlib.Data.List.Nodup

/-!
# Nodes of a value

The concrete paths of a value are exactly the paths that lead from its root to another node, each
listed once.  A canonical path covers a concrete path if it is what remains when the positions of the
indexes are forgotten.  Along a path that leads to a node every key stands for something, so that no
row is lost.
-/

namespace GraphTemplate

theorem Segment.covers_key_iff {name : String} {segment : Segment} :
    (key name).covers segment ↔ segment = key name := by
  rw [covers, beq_iff_eq]
  · exact eq_comm
  · rintro _ ⟨⟩

theorem Segment.covers_iff_erase_eq {pattern segment : Segment} (canonical : pattern.erase = pattern)
    (concrete : .any ≠ segment) : pattern.covers segment ↔ segment.erase = pattern := by
  cases pattern with
  | key name =>
      cases segment with
      | key other => simpa [covers, erase] using eq_comm
      | index position => simp [covers, erase]
      | any => exact absurd rfl concrete
  | index position => cases canonical
  | any =>
      cases segment with
      | key name => simp [covers, erase]
      | index position => simp [covers, erase]
      | any => exact absurd rfl concrete

namespace Path

theorem erase_cons (segment : Segment) (rest : Path) :
    erase (segment :: rest) = segment.erase :: erase rest :=
  rfl

/-- A path without indexes covers a path without wildcards if it differs from it in the indexes
only. -/
theorem covers_iff_erase_eq {pattern path : Path} (canonical : pattern.erase = pattern)
    (concrete : Segment.any ∉ path) : pattern.covers path ↔ path.erase = pattern := by
  induction pattern generalizing path with
  | nil => cases path <;> simp [covers, erase]
  | cons first patterns ih =>
      rcases path with _ | ⟨segment, segments⟩
      · simp [covers, erase]
      · rw [erase_cons, List.cons.injEq] at canonical
        rw [List.mem_cons, not_or] at concrete
        rw [erase_cons, List.cons.injEq, ← ih canonical.2 concrete.2,
          ← Segment.covers_iff_erase_eq canonical.1 concrete.1, covers, Bool.and_eq_true]

/-- Paths with different first segments are different. -/
theorem nodup_flatMap_cons {α : Type} {items : List α} {first : α → Segment} {below : α → List Path}
    (apart : (items.map first).Nodup) (each : ∀ item ∈ items, (below item).Nodup) :
    (items.flatMap fun item => (below item).map (first item :: ·)).Nodup := by
  rw [List.nodup_flatMap]
  constructor
  · intro item member
    exact (each item member).map fun _ _ same => List.tail_eq_of_cons_eq same
  · apply (List.pairwise_map.mp apart).imp
    intro item other different path pathMem otherMem
    rcases List.mem_map.mp pathMem with ⟨rest, _, rfl⟩
    rcases List.mem_map.mp otherMem with ⟨otherRest, _, same⟩
    exact different (List.head_eq_of_cons_eq same).symm

end Path

namespace Fields

variable {α β : Type}

/-- Of fields with distinct names only one entry has a given name. -/
theorem flatMap_ite_eq_get? {fields : Fields α} (distinct : fields.Distinct) (key : String)
    (each : α → List β) :
    (fields.flatMap fun entry => if entry.1 = key then each entry.2 else []) =
      ((fields.get? key).map each).getD [] := by
  induction fields with
  | nil => rfl
  | cons entry rest ih =>
      rcases entry with ⟨name, value⟩
      simp only [Distinct, keys_cons, List.nodup_cons] at distinct
      rw [List.flatMap_cons, ih distinct.2, get?_cons]
      by_cases same : name = key
      · subst same
        have gone : get? rest name = none := get?_eq_none_iff.mpr distinct.1
        simp [gone]
      · simp [same]

end Fields

namespace Value

/-- A value is a scalar, a list of values or a map to values. -/
@[elab_as_elim]
theorem induction_nodes {motive : Value → Prop}
    (scalar : ∀ value : Value, value.isScalar → motive value)
    (list : ∀ items, (∀ item ∈ items, motive item) → motive (.list items))
    (map : ∀ fields : List (String × Value), (∀ entry ∈ fields, motive entry.2) →
      motive (.map fields)) : ∀ value, motive value
  | .none => scalar _ rfl
  | .bool _ => scalar _ rfl
  | .integer _ => scalar _ rfl
  | .float _ => scalar _ rfl
  | .string _ => scalar _ rfl
  | .list items => list items fun item _ => induction_nodes scalar list map item
  | .map fields => map fields fun entry member =>
      have : sizeOf entry.2 < sizeOf fields := by
        have := List.sizeOf_lt_of_mem member
        rcases entry with ⟨name, value⟩
        simp only [Prod.mk.sizeOf_spec] at this ⊢
        omega
      induction_nodes scalar list map entry.2

theorem keysDistinct_list_iff {items : List Value} :
    (list items).KeysDistinct ↔ ∀ item ∈ items, item.KeysDistinct := by
  rw [KeysDistinct]
  induction items with
  | nil => simp [ItemsKeysDistinct]
  | cons item rest ih => simp [ItemsKeysDistinct, ih]

theorem keysDistinct_map_iff {fields : List (String × Value)} :
    (map fields).KeysDistinct ↔
      Fields.Distinct fields ∧ ∀ entry ∈ fields, entry.2.KeysDistinct := by
  rw [KeysDistinct]
  have entries : EntriesKeysDistinct fields ↔ ∀ entry ∈ fields, entry.2.KeysDistinct := by
    induction fields with
    | nil => simp [EntriesKeysDistinct]
    | cons entry rest ih => rw [EntriesKeysDistinct, ih, List.forall_mem_cons]
  rw [entries]

/-- The path of the root and all concrete paths. -/
def places (value : Value) : List Path :=
  [] :: value.concretePaths

theorem itemPaths_eq (position : Nat) (items : List Value) :
    itemPaths position items =
      (items.zipIdx position).flatMap fun item => item.1.places.map (.index item.2 :: ·) := by
  induction items generalizing position with
  | nil => rfl
  | cons item rest ih => simp [itemPaths, ih, places]

theorem concretePaths_list (items : List Value) :
    (list items).concretePaths =
      items.zipIdx.flatMap fun item => item.1.places.map (.index item.2 :: ·) := by
  rw [concretePaths, itemPaths_eq]

theorem concretePaths_map (fields : List (String × Value)) :
    (map fields).concretePaths =
      fields.flatMap fun entry => entry.2.places.map (.key entry.1 :: ·) := by
  rw [concretePaths]
  induction fields with
  | nil => rfl
  | cons entry rest ih => simp [entryPaths, ih, places]

theorem concretePaths_scalar {value : Value} (scalar : value.isScalar) :
    value.concretePaths = [] := by
  cases value <;> first | rfl | cases scalar

theorem mem_places_cons_list {items : List Value} {segment : Segment} {rest : Path} :
    segment :: rest ∈ (list items).places ↔
      ∃ position item, segment = .index position ∧ items[position]? = some item ∧
        rest ∈ item.places := by
  simp only [places, concretePaths_list, List.mem_cons, List.mem_flatMap, List.mem_map]
  constructor
  · rintro (impossible | ⟨⟨item, position⟩, member, below, inside, same⟩)
    · cases impossible
    · cases same
      exact ⟨position, item, rfl, List.mem_zipIdx_iff_getElem?.mp member, inside⟩
  · rintro ⟨position, item, rfl, found, inside⟩
    exact Or.inr ⟨(item, position), List.mem_zipIdx_iff_getElem?.mpr found, rest, inside, rfl⟩

theorem mem_places_cons_map {fields : List (String × Value)} {segment : Segment} {rest : Path} :
    segment :: rest ∈ (map fields).places ↔
      ∃ key value, segment = .key key ∧ (key, value) ∈ fields ∧ rest ∈ value.places := by
  simp only [places, concretePaths_map, List.mem_cons, List.mem_flatMap, List.mem_map]
  constructor
  · rintro (impossible | ⟨⟨key, value⟩, member, below, inside, same⟩)
    · cases impossible
    · cases same
      exact ⟨key, value, rfl, member, inside⟩
  · rintro ⟨key, value, rfl, member, inside⟩
    exact Or.inr ⟨(key, value), member, rest, inside, rfl⟩

theorem nil_mem_places (value : Value) : [] ∈ value.places :=
  List.mem_cons_self

theorem step?_scalar {value : Value} (scalar : value.isScalar) (segment : Segment) :
    value.step? segment = Option.none := by
  cases value <;> first | rfl | cases scalar

theorem step?_list_eq_some_iff {items : List Value} {segment : Segment} {below : Value} :
    (list items).step? segment = some below ↔
      ∃ position, segment = .index position ∧ items[position]? = some below := by
  cases segment <;> simp [step?]

theorem step?_map_eq_some_iff {fields : List (String × Value)} {segment : Segment} {below : Value} :
    (map fields).step? segment = some below ↔
      ∃ key, segment = .key key ∧ Fields.get? fields key = some below := by
  cases segment <;> simp [step?]

theorem keysDistinct_of_step? {value below : Value} {segment : Segment}
    (distinct : value.KeysDistinct) (step : value.step? segment = some below) :
    below.KeysDistinct := by
  cases value with
  | list items =>
      rcases step?_list_eq_some_iff.mp step with ⟨position, _, found⟩
      exact keysDistinct_list_iff.mp distinct _ (List.mem_of_getElem? found)
  | map fields =>
      rcases step?_map_eq_some_iff.mp step with ⟨key, _, found⟩
      exact (keysDistinct_map_iff.mp distinct).2 _ (Fields.mem_of_get?_eq_some found)
  | _ => cases step

@[simp]
theorem get?_nil (value : Value) : value.get? [] = some value := by
  rw [get?]

theorem get?_cons (value : Value) (segment : Segment) (rest : Path) :
    value.get? (segment :: rest) = (value.step? segment).bind (get? · rest) := by
  rw [get?]

theorem get?_cons_eq_some_iff {value node : Value} {segment : Segment} {rest : Path} :
    value.get? (segment :: rest) = some node ↔
      ∃ below, value.step? segment = some below ∧ below.get? rest = some node := by
  rw [get?_cons, Option.bind_eq_some_iff]

/-- The places of a value are those of its nodes. -/
theorem mem_places_iff {value : Value} (distinct : value.KeysDistinct) {path : Path} :
    path ∈ value.places ↔ ∃ node, value.get? path = some node := by
  induction value using induction_nodes generalizing path with
  | scalar value isScalar =>
      rw [places, concretePaths_scalar isScalar]
      cases path <;> simp [get?_cons, step?_scalar isScalar]
  | list items ih =>
      rw [keysDistinct_list_iff] at distinct
      rcases path with _ | ⟨segment, rest⟩
      · simp [nil_mem_places]
      · simp only [mem_places_cons_list, get?_cons_eq_some_iff, step?_list_eq_some_iff]
        constructor
        · rintro ⟨position, item, rfl, found, inside⟩
          have member := List.mem_of_getElem? found
          rcases (ih item member (distinct item member)).mp inside with ⟨node, held⟩
          exact ⟨node, item, ⟨position, rfl, found⟩, held⟩
        · rintro ⟨node, item, ⟨position, rfl, found⟩, held⟩
          have member := List.mem_of_getElem? found
          exact ⟨position, item, rfl, found,
            (ih item member (distinct item member)).mpr ⟨node, held⟩⟩
  | map fields ih =>
      rw [keysDistinct_map_iff] at distinct
      rcases path with _ | ⟨segment, rest⟩
      · simp [nil_mem_places]
      · simp only [mem_places_cons_map, get?_cons_eq_some_iff, step?_map_eq_some_iff]
        constructor
        · rintro ⟨key, value, rfl, member, inside⟩
          rcases (ih _ member (distinct.2 _ member)).mp inside with ⟨node, held⟩
          exact ⟨node, value, ⟨key, rfl, Fields.get?_eq_some_of_mem distinct.1 member⟩, held⟩
        · rintro ⟨node, value, ⟨key, rfl, found⟩, held⟩
          have member := Fields.mem_of_get?_eq_some found
          exact ⟨key, value, rfl, member, (ih _ member (distinct.2 _ member)).mpr ⟨node, held⟩⟩

theorem any_notMem_of_get? {value node : Value} {path : Path} (held : value.get? path = some node) :
    Segment.any ∉ path := by
  induction path generalizing value with
  | nil => exact List.not_mem_nil
  | cons segment rest ih =>
      rcases get?_cons_eq_some_iff.mp held with ⟨below, step, later⟩
      have concrete : Segment.any ≠ segment := by
        rintro rfl
        cases value <;> cases step
      rw [List.mem_cons, not_or]
      exact ⟨concrete, ih later⟩

theorem nodup_places {value : Value} (distinct : value.KeysDistinct) : value.places.Nodup := by
  induction value using induction_nodes with
  | scalar value isScalar =>
      rw [places, concretePaths_scalar isScalar]
      exact List.nodup_singleton []
  | list items ih =>
      rw [keysDistinct_list_iff] at distinct
      rw [places, concretePaths_list, List.nodup_cons]
      refine ⟨by simp, Path.nodup_flatMap_cons ?_ ?_⟩
      · change (items.zipIdx.map (Segment.index ∘ Prod.snd)).Nodup
        rw [← List.map_map, List.zipIdx_map_snd]
        exact List.Nodup.map (fun _ _ => Segment.index.inj) List.nodup_range'
      · rintro ⟨item, position⟩ member
        have itemMem := List.mem_of_getElem? (List.mem_zipIdx_iff_getElem?.mp member)
        exact ih item itemMem (distinct item itemMem)
  | map fields ih =>
      rw [keysDistinct_map_iff] at distinct
      rw [places, concretePaths_map, List.nodup_cons]
      refine ⟨by simp, Path.nodup_flatMap_cons ?_ ?_⟩
      · change (fields.map (Segment.key ∘ Prod.fst)).Nodup
        rw [← List.map_map]
        exact List.Nodup.map (fun _ _ => Segment.key.inj) distinct.1
      · exact fun entry member => ih entry member (distinct.2 entry member)

/-! ### Rows -/

/-- Every key along a path to a node stands for something. -/
theorem isSome_along?_of_get? {value node : Value} {path : Path}
    (held : value.get? path = some node) : (value.along? path).isSome := by
  induction path generalizing value with
  | nil => rfl
  | cons segment rest ih =>
      rcases get?_cons_eq_some_iff.mp held with ⟨below, step, later⟩
      rcases Option.isSome_iff_exists.mp (ih later) with ⟨more, further⟩
      rw [along?]
      simp only [step, further, Option.bind_eq_bind, Option.bind_some]
      split
      · rename_i position rest
        rcases get?_cons_eq_some_iff.mp later with ⟨element, next, _⟩
        simp [next]
      · rfl
      · rfl

/-- Every concrete path that a pattern covers makes a row. -/
theorem map_some_branches {value : Value} (distinct : value.KeysDistinct) (pattern : Path) :
    (value.branches pattern).map some = (value.concretePaths.filter pattern.covers).map value.row? := by
  have each : ∀ path ∈ value.concretePaths.filter pattern.covers, (value.row? path).isSome := by
    intro path member
    have place : path ∈ value.places := List.mem_cons_of_mem _ (List.mem_filter.mp member).1
    rcases (mem_places_iff distinct).mp place with ⟨node, held⟩
    rw [row?, Option.isSome_map]
    exact isSome_along?_of_get? held
  rw [branches]
  generalize value.concretePaths.filter pattern.covers = paths at each
  induction paths with
  | nil => rfl
  | cons path rest ih =>
      rw [List.forall_mem_cons] at each
      rcases Option.isSome_iff_exists.mp each.1 with ⟨row, made⟩
      rw [List.filterMap_cons_some made, List.map_cons, List.map_cons, made, ih each.2]

end Value

end GraphTemplate
