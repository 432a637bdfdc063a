import GraphTemplate.Proofs.Tree.Nodes
import GraphTemplate.Schema

/-!
# Unions of schemas

A schema is read by the shapes that it has at paths of keys and wildcards: its canonical paths are
those at which it has one.  Two schemas are compatible if nowhere one has a map and the other a list.
The union of compatible schemas has, at each path, the union of what the two have there.
-/

namespace GraphTemplate

theorem Fields.mem_of_mem_insert {α : Type} {fields : Fields α} {key : String} {value : α}
    {entry : String × α} (member : entry ∈ fields.insert key value) :
    entry ∈ fields ∨ entry = (key, value) := by
  induction fields with
  | nil => exact Or.inr (List.mem_singleton.mp member)
  | cons first rest ih =>
      rcases first with ⟨name, old⟩
      unfold insert at member
      split at member
      · rename_i same
        rcases List.mem_cons.mp member with rfl | later
        · exact Or.inr (by rw [same])
        · exact Or.inl (List.mem_cons_of_mem _ later)
      · rcases List.mem_cons.mp member with rfl | later
        · exact Or.inl List.mem_cons_self
        · exact (ih later).imp_left (List.mem_cons_of_mem _)

theorem Fields.get?_map {α β : Type} (f : α → β) (fields : Fields α) (key : String) :
    Fields.get? (fields.map fun entry => (entry.1, f entry.2)) key = (fields.get? key).map f := by
  induction fields with
  | nil => rfl
  | cons entry rest ih =>
      rw [List.map_cons, get?_cons, get?_cons, ih]
      split <;> rfl

namespace Schema

/-- A schema is a scalar, a list of one shape, or a map to shapes. -/
@[elab_as_elim]
theorem induction_shapes {motive : Schema → Prop} (scalar : motive .scalar)
    (list : ∀ element, motive element → motive (.list element))
    (map : ∀ fields : List (String × Schema), (∀ entry ∈ fields, motive entry.2) →
      motive (.map fields)) : ∀ schema, motive schema
  | .scalar => scalar
  | .list element => list element (induction_shapes scalar list map element)
  | .map fields => map fields fun entry member =>
      have : sizeOf entry.2 < sizeOf fields := by
        have := List.sizeOf_lt_of_mem member
        rcases entry with ⟨name, shape⟩
        simp only [Prod.mk.sizeOf_spec] at this ⊢
        omega
      induction_shapes scalar list map entry.2

theorem keysDistinct_map_iff {fields : List (String × Schema)} :
    (map fields).KeysDistinct ↔
      Fields.Distinct fields ∧ ∀ entry ∈ fields, entry.2.KeysDistinct := by
  rw [KeysDistinct]
  have entries : EntriesKeysDistinct fields ↔ ∀ entry ∈ fields, entry.2.KeysDistinct := by
    induction fields with
    | nil => simp [EntriesKeysDistinct]
    | cons entry rest ih => rw [EntriesKeysDistinct, ih, List.forall_mem_cons]
  rw [entries]

/-! ### Shapes at paths -/

/-- The shape one step below a schema. -/
def step? : Schema → Segment → Option Schema
  | map fields, .key key => Fields.get? fields key
  | list element, .any => some element
  | _, _ => none

/-- The shape at a path of keys and wildcards. -/
def at? : Schema → Path → Option Schema
  | schema, [] => some schema
  | schema, segment :: rest => (schema.step? segment).bind (at? · rest)

/-- What kind of container a shape is; a scalar is none. -/
def container? : Schema → Option Kind
  | scalar => none
  | map _ => some .map
  | list _ => some .list

@[simp]
theorem at?_nil (schema : Schema) : schema.at? [] = some schema := by
  rw [at?]

theorem at?_cons (schema : Schema) (segment : Segment) (rest : Path) :
    schema.at? (segment :: rest) = (schema.step? segment).bind (at? · rest) := by
  rw [at?]

theorem at?_scalar_cons (segment : Segment) (rest : Path) :
    scalar.at? (segment :: rest) = none := by
  rw [at?_cons]
  rfl

theorem exists_at?_scalar_iff {path : Path} :
    (∃ shape, scalar.at? path = some shape) ↔ path = [] := by
  cases path <;> simp [at?_scalar_cons]

theorem at?_cons_eq_some_iff {schema shape : Schema} {segment : Segment} {rest : Path} :
    schema.at? (segment :: rest) = some shape ↔
      ∃ below, schema.step? segment = some below ∧ below.at? rest = some shape := by
  rw [at?_cons, Option.bind_eq_some_iff]

theorem step?_list_eq_some_iff {element below : Schema} {segment : Segment} :
    (list element).step? segment = some below ↔ segment = .any ∧ element = below := by
  cases segment <;> simp [step?]

theorem step?_map_eq_some_iff {fields : List (String × Schema)} {below : Schema}
    {segment : Segment} :
    (map fields).step? segment = some below ↔
      ∃ key, segment = .key key ∧ Fields.get? fields key = some below := by
  cases segment <;> simp [step?]

/-- Where a schema has a shape, the path has no index. -/
theorem erase_eq_of_at? {schema shape : Schema} {path : Path} (held : schema.at? path = some shape) :
    path.erase = path := by
  induction path generalizing schema with
  | nil => rfl
  | cons segment rest ih =>
      rcases at?_cons_eq_some_iff.mp held with ⟨below, step, later⟩
      have canonical : segment.erase = segment := by
        cases segment with
        | key name => rfl
        | index position => cases schema <;> cases step
        | any => rfl
      rw [Path.erase_cons, canonical, ih later]

/-! ### Canonical paths -/

theorem canonicalPaths_map (fields : List (String × Schema)) :
    (map fields).canonicalPaths =
      fields.flatMap fun entry => ([] :: entry.2.canonicalPaths).map (.key entry.1 :: ·) := by
  rw [canonicalPaths]
  induction fields with
  | nil => rfl
  | cons entry rest ih => simp [entryPaths, ih]

theorem canonicalPaths_list (element : Schema) :
    (list element).canonicalPaths = ([] :: element.canonicalPaths).map (.any :: ·) := by
  rw [canonicalPaths]
  rfl

/-- The canonical paths of a schema, and the path of its root, are those at which it has a shape. -/
theorem mem_canonicalPaths_iff {schema : Schema} (distinct : schema.KeysDistinct) {path : Path} :
    path ∈ [] :: schema.canonicalPaths ↔ ∃ shape, schema.at? path = some shape := by
  induction schema using induction_shapes generalizing path with
  | scalar => cases path <;> simp [canonicalPaths, at?_scalar_cons]
  | list element ih =>
      rcases path with _ | ⟨segment, rest⟩
      · simp
      · have inside : rest ∈ [] :: element.canonicalPaths ↔ ∃ shape, element.at? rest = some shape :=
          ih distinct
        simp only [canonicalPaths_list, at?_cons_eq_some_iff, step?_list_eq_some_iff,
          List.mem_cons (a := segment :: rest), List.mem_map]
        constructor
        · rintro (impossible | ⟨_, member, same⟩)
          · cases impossible
          · cases same
            rcases inside.mp member with ⟨shape, held⟩
            exact ⟨shape, element, ⟨rfl, rfl⟩, held⟩
        · rintro ⟨shape, _, ⟨rfl, rfl⟩, held⟩
          exact Or.inr ⟨rest, inside.mpr ⟨shape, held⟩, rfl⟩
  | map fields ih =>
      rw [keysDistinct_map_iff] at distinct
      rcases path with _ | ⟨segment, rest⟩
      · simp
      · simp only [canonicalPaths_map, at?_cons_eq_some_iff, step?_map_eq_some_iff,
          List.mem_cons (a := segment :: rest), List.mem_flatMap, List.mem_map]
        constructor
        · rintro (impossible | ⟨⟨key, below⟩, entryMem, _, member, same⟩)
          · cases impossible
          · cases same
            rcases (ih _ entryMem (distinct.2 _ entryMem)).mp member with ⟨shape, held⟩
            exact ⟨shape, below, ⟨key, rfl, Fields.get?_eq_some_of_mem distinct.1 entryMem⟩, held⟩
        · rintro ⟨shape, below, ⟨key, rfl, found⟩, held⟩
          have entryMem := Fields.mem_of_get?_eq_some found
          exact Or.inr ⟨(key, below), entryMem, rest,
            (ih _ entryMem (distinct.2 _ entryMem)).mpr ⟨shape, held⟩, rfl⟩

theorem nodup_canonicalPaths {schema : Schema} (distinct : schema.KeysDistinct) :
    ([] :: schema.canonicalPaths).Nodup := by
  induction schema using induction_shapes with
  | scalar => exact List.nodup_singleton []
  | list element ih =>
      rw [canonicalPaths_list, List.nodup_cons]
      exact ⟨by simp, (ih distinct).map fun _ _ same => List.tail_eq_of_cons_eq same⟩
  | map fields ih =>
      rw [keysDistinct_map_iff] at distinct
      rw [canonicalPaths_map, List.nodup_cons]
      refine ⟨by simp, Path.nodup_flatMap_cons ?_ ?_⟩
      · change (fields.map (Segment.key ∘ Prod.fst)).Nodup
        rw [← List.map_map]
        exact List.Nodup.map (fun _ _ => Segment.key.inj) distinct.1
      · exact fun entry member => ih entry member (distinct.2 entry member)

/-! ### Unions -/

@[simp]
theorem scalar_union (schema : Schema) : scalar.union schema = schema := by
  cases schema <;> simp [union]

@[simp]
theorem union_scalar (schema : Schema) : schema.union scalar = schema := by
  rw [union]

theorem map_union_map (fields others : List (String × Schema)) :
    (map fields).union (map others) = map (unionEntries fields others) := by
  rw [union]

theorem list_union_list (element other : Schema) :
    (list element).union (list other) = list (element.union other) := by
  rw [union]

theorem get?_unionEntries (fields : Fields Schema) {others : Fields Schema}
    (distinct : others.Distinct) (key : String) :
    (unionEntries fields others).get? key =
      Option.merge union (fields.get? key) (others.get? key) := by
  induction others generalizing fields with
  | nil => rw [unionEntries, Fields.get?_nil, Option.merge_none_right]
  | cons entry rest ih =>
      rcases entry with ⟨name, shape⟩
      simp only [Fields.Distinct, Fields.keys_cons, List.nodup_cons] at distinct
      rw [unionEntries, ih _ distinct.2, Fields.get?_cons]
      by_cases same : name = key
      · subst same
        have gone : Fields.get? rest name = none := Fields.get?_eq_none_iff.mpr distinct.1
        rw [Fields.get?_insert_self, gone, if_pos rfl, Option.merge_none_right]
        cases fields.get? name <;> simp [Option.merge]
      · rw [Fields.get?_insert_of_ne _ _ same, if_neg same]

theorem keysDistinct_unionEntries {fields others : List (String × Schema)}
    (distinct : (map fields).KeysDistinct)
    (each : ∀ entry ∈ others, ∀ first : Schema, first.KeysDistinct →
      (first.union entry.2).KeysDistinct) : (map (unionEntries fields others)).KeysDistinct := by
  induction others generalizing fields with
  | nil => exact distinct
  | cons entry rest ih =>
      rcases entry with ⟨key, shape⟩
      rw [List.forall_mem_cons] at each
      apply ih _ each.2
      rw [keysDistinct_map_iff] at distinct ⊢
      refine ⟨Fields.distinct_insert distinct.1 _ _, ?_⟩
      intro entry member
      rcases Fields.mem_of_mem_insert member with old | rfl
      · exact distinct.2 entry old
      · apply each.1
        cases found : Fields.get? fields key with
        | none => trivial
        | some held => exact distinct.2 _ (Fields.mem_of_get?_eq_some found)

theorem keysDistinct_union {first second : Schema} (distinct : first.KeysDistinct)
    (otherDistinct : second.KeysDistinct) : (first.union second).KeysDistinct := by
  induction second using induction_shapes generalizing first with
  | scalar =>
      rw [union_scalar]
      exact distinct
  | list other ih =>
      cases first with
      | scalar => simpa using otherDistinct
      | map fields => simpa [union] using distinct
      | list element =>
          rw [list_union_list]
          exact ih distinct otherDistinct
  | map others ih =>
      cases first with
      | scalar => simpa using otherDistinct
      | list element => simpa [union] using distinct
      | map fields =>
          rw [map_union_map]
          rw [keysDistinct_map_iff] at otherDistinct
          apply keysDistinct_unionEntries distinct
          exact fun entry member first firstDistinct =>
            ih entry member firstDistinct (otherDistinct.2 entry member)

theorem container?_union (first second : Schema) :
    (first.union second).container? = first.container?.or second.container? := by
  cases first <;> cases second <;> simp [union, container?]

/-- One step below a union the two schemas are united again, unless one of them is a map and the other
a list: then the first one stands. -/
theorem step?_union_or_clash (first : Schema) {second : Schema} (distinct : second.KeysDistinct) :
    (∀ segment, (first.union second).step? segment =
      Option.merge union (first.step? segment) (second.step? segment)) ∨
    ∃ kind otherKind, first.container? = some kind ∧ second.container? = some otherKind ∧
      kind ≠ otherKind ∧ first.union second = first := by
  cases first with
  | scalar =>
      left
      intro segment
      cases segment <;> simp [step?]
  | map fields =>
      cases second with
      | scalar =>
          left
          intro segment
          cases segment <;> simp [step?]
      | map others =>
          left
          rw [map_union_map]
          intro segment
          cases segment with
          | key key => exact get?_unionEntries fields (keysDistinct_map_iff.mp distinct).1 key
          | index position => rfl
          | any => rfl
      | list other =>
          right
          exact ⟨.map, .list, rfl, rfl, by simp, by rw [union]⟩
  | list element =>
      cases second with
      | scalar =>
          left
          intro segment
          cases segment <;> simp [step?]
      | map others =>
          right
          exact ⟨.list, .map, rfl, rfl, by simp, by rw [union]⟩
      | list other =>
          left
          rw [list_union_list]
          intro segment
          cases segment <;> rfl

/-- At a path the schema has a container of the given kind. -/
def Holds (schema : Schema) (path : Path) (kind : Kind) : Prop :=
  ∃ shape, schema.at? path = some shape ∧ shape.container? = some kind

/-- Nowhere has one of the schemas a map and the other a list. -/
def Compatible (first second : Schema) : Prop :=
  ∀ path kind otherKind, first.Holds path kind → second.Holds path otherKind → kind = otherKind

theorem holds_nil_iff {schema : Schema} {kind : Kind} :
    schema.Holds [] kind ↔ schema.container? = some kind := by
  simp [Holds]

theorem holds_cons_iff {schema : Schema} {segment : Segment} {rest : Path} {kind : Kind} :
    schema.Holds (segment :: rest) kind ↔
      ∃ below, schema.step? segment = some below ∧ below.Holds rest kind := by
  simp only [Holds, at?_cons_eq_some_iff]
  constructor
  · rintro ⟨shape, ⟨below, step, held⟩, same⟩
    exact ⟨below, step, shape, held, same⟩
  · rintro ⟨below, step, shape, held, same⟩
    exact ⟨shape, ⟨below, step, held⟩, same⟩

theorem keysDistinct_of_step? {schema shape : Schema} {segment : Segment}
    (distinct : schema.KeysDistinct) (step : schema.step? segment = some shape) :
    shape.KeysDistinct := by
  cases schema with
  | scalar => cases segment <;> cases step
  | list element =>
      rcases step?_list_eq_some_iff.mp step with ⟨_, rfl⟩
      exact distinct
  | map fields =>
      rcases step?_map_eq_some_iff.mp step with ⟨key, _, found⟩
      exact (keysDistinct_map_iff.mp distinct).2 _ (Fields.mem_of_get?_eq_some found)

theorem not_holds_scalar {path : Path} {kind : Kind} : ¬ scalar.Holds path kind := by
  intro holds
  rcases path with _ | ⟨segment, rest⟩
  · cases holds_nil_iff.mp holds
  · rcases holds_cons_iff.mp holds with ⟨below, step, _⟩
    cases segment <;> cases step

theorem Holds.map_or_list {schema : Schema} {path : Path} {kind : Kind}
    (holds : schema.Holds path kind) : kind = .map ∨ kind = .list := by
  rcases holds with ⟨shape, _, same⟩
  cases shape <;> cases same <;> simp

namespace Compatible

variable {first second third : Schema}

theorem scalar_left (schema : Schema) : Compatible scalar schema :=
  fun _ _ _ holds _ => absurd holds not_holds_scalar

/-- Compatible schemas are compatible one step further. -/
theorem below (compatible : Compatible first second) {segment : Segment} {shape other : Schema}
    (step : first.step? segment = some shape) (otherStep : second.step? segment = some other) :
    Compatible shape other := by
  intro path kind otherKind holds otherHolds
  exact compatible (segment :: path) kind otherKind (holds_cons_iff.mpr ⟨shape, step, holds⟩)
    (holds_cons_iff.mpr ⟨other, otherStep, otherHolds⟩)

theorem step?_union (compatible : Compatible first second) (distinct : second.KeysDistinct)
    (segment : Segment) : (first.union second).step? segment =
      Option.merge union (first.step? segment) (second.step? segment) := by
  rcases step?_union_or_clash first distinct with united | ⟨kind, otherKind, own, other, clash, _⟩
  · exact united segment
  · exact absurd (compatible [] kind otherKind (holds_nil_iff.mpr own) (holds_nil_iff.mpr other)) clash

/-- The union of compatible schemas has at each path the union of what they have there. -/
theorem at?_union (compatible : Compatible first second) (distinct : second.KeysDistinct)
    (path : Path) : (first.union second).at? path =
      Option.merge union (first.at? path) (second.at? path) := by
  induction path generalizing first second with
  | nil => rfl
  | cons segment rest ih =>
      simp only [at?_cons, compatible.step?_union distinct segment]
      cases step : first.step? segment with
      | none => simp
      | some shape =>
          cases otherStep : second.step? segment with
          | none => simp
          | some other =>
              exact ih (compatible.below step otherStep) (keysDistinct_of_step? distinct otherStep)

theorem exists_at?_union (compatible : Compatible first second) (distinct : second.KeysDistinct)
    {path : Path} : (∃ shape, (first.union second).at? path = some shape) ↔
      (∃ shape, first.at? path = some shape) ∨ ∃ shape, second.at? path = some shape := by
  rw [compatible.at?_union distinct]
  cases first.at? path <;> cases second.at? path <;> simp [Option.merge]

/-- The union of compatible schemas has a container only where one of them has it. -/
theorem holds_union (compatible : Compatible first second) (distinct : second.KeysDistinct)
    {path : Path} {kind : Kind} (holds : (first.union second).Holds path kind) :
    first.Holds path kind ∨ second.Holds path kind := by
  rcases holds with ⟨shape, held, same⟩
  rw [compatible.at?_union distinct] at held
  unfold Holds
  generalize first.at? path = own, second.at? path = other at held ⊢
  rcases own with _ | own <;> rcases other with _ | other
  · cases held
  · cases held
    exact Or.inr ⟨_, rfl, same⟩
  · cases held
    exact Or.inl ⟨_, rfl, same⟩
  · cases held
    rw [container?_union, Option.or_eq_some_iff] at same
    rcases same with fromOwn | ⟨_, fromOther⟩
    · exact Or.inl ⟨_, rfl, fromOwn⟩
    · exact Or.inr ⟨_, rfl, fromOther⟩

theorem union_left (compatible : Compatible first second) (distinct : second.KeysDistinct)
    (firstThird : Compatible first third) (secondThird : Compatible second third) :
    Compatible (first.union second) third := by
  intro path kind otherKind holds otherHolds
  rcases compatible.holds_union distinct holds with own | other
  · exact firstThird path kind otherKind own otherHolds
  · exact secondThird path kind otherKind other otherHolds

end Compatible

/-! ### Unions of many schemas -/

section

variable {schemas : List Schema} {start : Schema}

theorem keysDistinct_foldl_union (startDistinct : start.KeysDistinct)
    (distinct : ∀ schema ∈ schemas, schema.KeysDistinct) :
    (schemas.foldl union start).KeysDistinct := by
  induction schemas generalizing start with
  | nil => exact startDistinct
  | cons schema rest ih =>
      rw [List.forall_mem_cons] at distinct
      exact ih (keysDistinct_union startDistinct distinct.1) distinct.2

/-- The union of compatible schemas has a shape where one of them has one, and a container only where
one of them has it. -/
theorem at?_foldl_union (path : Path) (compatible : (start :: schemas).Pairwise Compatible)
    (distinct : ∀ schema ∈ schemas, schema.KeysDistinct) :
    ((∃ shape, (schemas.foldl union start).at? path = some shape) ↔
      ∃ schema ∈ start :: schemas, ∃ shape, schema.at? path = some shape) ∧
    ∀ kind, (schemas.foldl union start).Holds path kind →
      ∃ schema ∈ start :: schemas, schema.Holds path kind := by
  induction schemas generalizing start with
  | nil => simp
  | cons schema rest ih =>
      rw [List.forall_mem_cons] at distinct
      simp only [List.pairwise_cons, List.forall_mem_cons] at compatible
      rcases compatible with ⟨⟨first, others⟩, later, laterRest⟩
      -- The union has containers of its two parts only, so it stays compatible with the others.
      have joined : (start.union schema :: rest).Pairwise Compatible := by
        refine List.pairwise_cons.mpr ⟨?_, laterRest⟩
        exact fun other member => first.union_left distinct.1 (others other member) (later other member)
      rcases ih joined distinct.2 with ⟨shapes, containers⟩
      rw [List.foldl_cons]
      constructor
      · rw [shapes]
        simp only [List.exists_mem_cons_iff, first.exists_at?_union distinct.1, or_assoc]
      · intro kind holds
        rcases containers kind holds with ⟨other, member, held⟩
        rcases List.mem_cons.mp member with rfl | inRest
        · rcases first.holds_union distinct.1 held with own | next
          · exact ⟨start, List.mem_cons_self, own⟩
          · exact ⟨schema, List.mem_cons_of_mem _ List.mem_cons_self, next⟩
        · exact ⟨other, List.mem_cons_of_mem _ (List.mem_cons_of_mem _ inRest), held⟩

end

/-! ### Schemas of values -/

theorem infer_scalar {value : Value} (isScalar : value.isScalar) : infer value = scalar := by
  cases value with
  | list items => cases isScalar
  | map fields => cases isScalar
  | _ => simp [infer]

theorem infer_list (items : List Value) :
    infer (.list items) = list ((items.map infer).foldl union scalar) := by
  have each : inferItems items = items.map infer := by
    induction items with
    | nil => rfl
    | cons item rest ih => rw [inferItems, ih, List.map_cons]
  rw [infer, each]

theorem infer_map (fields : List (String × Value)) :
    infer (.map fields) = map (fields.map fun entry => (entry.1, infer entry.2)) := by
  have each : inferEntries fields = fields.map fun entry => (entry.1, infer entry.2) := by
    induction fields with
    | nil => rfl
    | cons entry rest ih => rw [inferEntries, ih, List.map_cons]
  rw [infer, each]

theorem keysDistinct_infer {value : Value} (distinct : value.KeysDistinct) :
    (infer value).KeysDistinct := by
  induction value using Value.induction_nodes with
  | scalar value isScalar =>
      rw [infer_scalar isScalar]
      trivial
  | list items ih =>
      rw [Value.keysDistinct_list_iff] at distinct
      rw [infer_list]
      have start : scalar.KeysDistinct := trivial
      apply keysDistinct_foldl_union start
      intro schema member
      rcases List.mem_map.mp member with ⟨item, itemMem, rfl⟩
      exact ih item itemMem (distinct item itemMem)
  | map fields ih =>
      rw [Value.keysDistinct_map_iff] at distinct
      rw [infer_map, keysDistinct_map_iff]
      constructor
      · have keys : Fields.keys (fields.map fun entry => (entry.1, infer entry.2)) =
            Fields.keys fields := by
          simp [Fields.keys]
        rw [Fields.Distinct, keys]
        exact distinct.1
      · intro entry member
        rcases List.mem_map.mp member with ⟨field, fieldMem, rfl⟩
        exact ih field fieldMem (distinct.2 field fieldMem)

end Schema

end GraphTemplate
