import GraphTemplate.Proofs.Schema.Union

/-!
# Canonical paths cover a value

The shape of a list is the union of the shapes of its elements.  If no position of a value, up to
indexes, is a map at one node and a list at another, these shapes are compatible.  Then the canonical
paths of the schema are the positions of the nodes, together with the positions inside empty lists.
Each concrete path is covered by one of them alone, so that the rows of all canonical paths divide the
concrete paths among them.
-/

namespace GraphTemplate

namespace Value

/-- The kind of the node at a path. -/
def kindAt? (value : Value) (path : Path) : Option Kind :=
  (value.get? path).map kind

/-- No two nodes whose paths differ in their indexes only are one a map and the other a list. -/
def Unmixed (value : Value) : Prop :=
  ∀ path ∈ value.places, ∀ other ∈ value.places, path.erase = other.erase →
    value.kindAt? path = some .map → value.kindAt? other ≠ some .list

instance (value : Value) : Decidable value.Unmixed :=
  inferInstanceAs (Decidable (∀ path ∈ value.places, ∀ other ∈ value.places, _ → _ → _))

/-- A position of a value is where some node is, up to indexes, or it is inside an empty list. -/
def IsPosition (value : Value) (path : Path) : Prop :=
  (∃ place ∈ value.places, place.erase = path) ∨
    ∃ place ∈ value.places, value.get? place = some (.list []) ∧ place.erase ++ [.any] = path

section

variable {value inner : Value} {segment : Segment}

theorem cons_mem_places_iff (distinct : value.KeysDistinct)
    (step : value.step? segment = some inner) {rest : Path} :
    segment :: rest ∈ value.places ↔ rest ∈ inner.places := by
  rw [mem_places_iff distinct, mem_places_iff (keysDistinct_of_step? distinct step), get?_cons, step,
    Option.bind_some]

theorem kindAt?_cons (step : value.step? segment = some inner) (rest : Path) :
    value.kindAt? (segment :: rest) = inner.kindAt? rest := by
  rw [kindAt?, get?_cons, step, Option.bind_some, kindAt?]

theorem Unmixed.of_step? (distinct : value.KeysDistinct) (unmixed : value.Unmixed)
    (step : value.step? segment = some inner) : inner.Unmixed := by
  intro path pathMem other otherMem same
  have whole := unmixed (segment :: path) ((cons_mem_places_iff distinct step).mpr pathMem)
    (segment :: other) ((cons_mem_places_iff distinct step).mpr otherMem)
  rw [kindAt?_cons step, kindAt?_cons step, Path.erase_cons, Path.erase_cons, same] at whole
  exact whole rfl

theorem Unmixed.of_mem {items : List Value} {item : Value} (distinct : (list items).KeysDistinct)
    (unmixed : (list items).Unmixed) (member : item ∈ items) : item.Unmixed := by
  rcases List.mem_iff_getElem?.mp member with ⟨position, found⟩
  have step : (list items).step? (.index position) = some item := found
  exact unmixed.of_step? distinct step

theorem isPosition_nil (value : Value) : value.IsPosition [] :=
  Or.inl ⟨[], value.nil_mem_places, rfl⟩

theorem isPosition_cons_iff (distinct : value.KeysDistinct) {first : Segment} {rest : Path} :
    value.IsPosition (first :: rest) ↔
      (∃ segment inner, value.step? segment = some inner ∧ segment.erase = first ∧
        inner.IsPosition rest) ∨
      value = .list [] ∧ first = .any ∧ rest = [] := by
  have step_of_mem : ∀ segment path, segment :: path ∈ value.places → ∃ inner,
      value.step? segment = some inner ∧ path ∈ inner.places := by
    intro segment path member
    rcases (mem_places_iff distinct).mp member with ⟨node, held⟩
    rcases get?_cons_eq_some_iff.mp held with ⟨inner, step, _⟩
    exact ⟨inner, step, (cons_mem_places_iff distinct step).mp member⟩
  constructor
  · rintro (⟨place, member, same⟩ | ⟨place, member, held, same⟩)
    · rcases place with _ | ⟨segment, path⟩
      · cases same
      · rcases step_of_mem segment path member with ⟨inner, step, inside⟩
        rw [Path.erase_cons] at same
        cases same
        exact Or.inl ⟨segment, inner, step, rfl, Or.inl ⟨path, inside, rfl⟩⟩
    · rcases place with _ | ⟨segment, path⟩
      · cases held
        cases same
        exact Or.inr ⟨rfl, rfl, rfl⟩
      · rcases step_of_mem segment path member with ⟨inner, step, inside⟩
        rw [Path.erase_cons, List.cons_append] at same
        cases same
        rw [get?_cons, step] at held
        exact Or.inl ⟨segment, inner, step, rfl, Or.inr ⟨path, inside, held, rfl⟩⟩
  · rintro (⟨segment, inner, step, rfl, ⟨path, inside, rfl⟩ | ⟨path, inside, held, rfl⟩⟩ |
      ⟨rfl, rfl, rfl⟩)
    · exact Or.inl ⟨segment :: path, (cons_mem_places_iff distinct step).mpr inside, rfl⟩
    · refine Or.inr ⟨segment :: path, (cons_mem_places_iff distinct step).mpr inside, ?_, rfl⟩
      rw [get?_cons, step]
      exact held
    · exact Or.inr ⟨[], nil_mem_places _, rfl, rfl⟩

theorem not_isPosition_cons_scalar (isScalar : value.isScalar) (first : Segment) (rest : Path) :
    ¬ value.IsPosition (first :: rest) := by
  have distinct : value.KeysDistinct := by
    cases value <;> trivial
  rw [isPosition_cons_iff distinct]
  rintro (⟨segment, inner, step, _⟩ | ⟨rfl, _⟩)
  · rw [step?_scalar isScalar] at step
    cases step
  · cases isScalar

/-- The positions below a list are those below its elements, and that of an element in any case. -/
theorem isPosition_cons_list_iff {items : List Value} (distinct : (list items).KeysDistinct)
    {first : Segment} {rest : Path} : (list items).IsPosition (first :: rest) ↔
      first = .any ∧ (rest = [] ∨ ∃ item ∈ items, item.IsPosition rest) := by
  rw [isPosition_cons_iff distinct]
  constructor
  · rintro (⟨_, item, step, rfl, inside⟩ | ⟨_, rfl, rfl⟩)
    · rcases step?_list_eq_some_iff.mp step with ⟨position, rfl, found⟩
      exact ⟨rfl, Or.inr ⟨item, List.mem_of_getElem? found, inside⟩⟩
    · exact ⟨rfl, Or.inl rfl⟩
  · rintro ⟨rfl, rfl | ⟨item, member, inside⟩⟩
    · rcases items with _ | ⟨item, others⟩
      · exact Or.inr ⟨rfl, rfl, rfl⟩
      · exact Or.inl ⟨.index 0, item, rfl, rfl, isPosition_nil item⟩
    · rcases List.mem_iff_getElem?.mp member with ⟨position, found⟩
      exact Or.inl ⟨.index position, item, found, rfl, inside⟩

theorem isPosition_cons_map_iff {fields : List (String × Value)}
    (distinct : (map fields).KeysDistinct) {first : Segment} {rest : Path} :
    (map fields).IsPosition (first :: rest) ↔
      ∃ key inner, first = .key key ∧ Fields.get? fields key = some inner ∧
        inner.IsPosition rest := by
  rw [isPosition_cons_iff distinct]
  constructor
  · rintro (⟨_, inner, step, rfl, inside⟩ | ⟨impossible, _⟩)
    · rcases step?_map_eq_some_iff.mp step with ⟨key, rfl, found⟩
      exact ⟨key, inner, rfl, found, inside⟩
    · cases impossible
  · rintro ⟨key, inner, rfl, found, inside⟩
    exact Or.inl ⟨.key key, inner, found, rfl, inside⟩

end

/-! ### The schema of a value without mixed positions -/

/-- That the containers in the shape of a value stand for nodes of it. -/
def Traced (value : Value) : Prop :=
  ∀ path kind, (Schema.infer value).Holds path kind →
    ∃ place ∈ value.places, place.erase = path ∧ value.kindAt? place = some kind

/-- The shapes of the elements of an unmixed list are compatible, as nodes account for them. -/
theorem pairwise_compatible_infer {items : List Value} (distinct : (list items).KeysDistinct)
    (unmixed : (list items).Unmixed) (traced : ∀ item ∈ items, item.Traced) :
    (Schema.scalar :: items.map Schema.infer).Pairwise Schema.Compatible := by
  rw [List.pairwise_cons]
  refine ⟨fun schema _ => Schema.Compatible.scalar_left schema, ?_⟩
  rw [List.pairwise_map]
  apply List.pairwise_of_forall_mem_list
  -- A container in the shape of an element is a node of the list, below the index of the element.
  have node : ∀ item ∈ items, ∀ path kind, (Schema.infer item).Holds path kind →
      ∃ place ∈ (list items).places, place.erase = .any :: path ∧
        (list items).kindAt? place = some kind := by
    intro item member path kind holds
    rcases traced item member path kind holds with ⟨place, inside, rfl, atPlace⟩
    rcases List.mem_iff_getElem?.mp member with ⟨position, found⟩
    have step : (list items).step? (.index position) = some item := found
    exact ⟨.index position :: place, (cons_mem_places_iff distinct step).mpr inside, rfl,
      (kindAt?_cons step place).trans atPlace⟩
  intro item member other otherMember path kind otherKind holds otherHolds
  rcases node item member path kind holds with ⟨place, inside, same, atPlace⟩
  rcases node other otherMember path otherKind otherHolds with
    ⟨second, secondInside, secondSame, atSecond⟩
  rw [← secondSame] at same
  rcases holds.map_or_list with rfl | rfl <;> rcases otherHolds.map_or_list with rfl | rfl
  · rfl
  · exact absurd atSecond (unmixed _ inside _ secondInside same atPlace)
  · exact absurd atPlace (unmixed _ secondInside _ inside same.symm atSecond)
  · rfl

theorem keysDistinct_map_infer {items : List Value} (distinct : ∀ item ∈ items, item.KeysDistinct) :
    ∀ schema ∈ items.map Schema.infer, schema.KeysDistinct := by
  intro schema member
  rcases List.mem_map.mp member with ⟨item, itemMem, rfl⟩
  exact Schema.keysDistinct_infer (distinct item itemMem)

theorem traced_of_unmixed {value : Value} (distinct : value.KeysDistinct) (unmixed : value.Unmixed) :
    value.Traced := by
  induction value using induction_nodes with
  | scalar value isScalar =>
      intro path kind holds
      rw [Schema.infer_scalar isScalar] at holds
      exact absurd holds Schema.not_holds_scalar
  | list items ih =>
      have each := fun item member =>
        ih item member (keysDistinct_list_iff.mp distinct item member)
          (unmixed.of_mem distinct member)
      have compatible := pairwise_compatible_infer distinct unmixed each
      have schemasDistinct := keysDistinct_map_infer (keysDistinct_list_iff.mp distinct)
      intro path kind holds
      rw [Schema.infer_list] at holds
      rcases path with _ | ⟨first, rest⟩
      · exact ⟨[], nil_mem_places _, rfl, Schema.holds_nil_iff.mp holds⟩
      · rcases Schema.holds_cons_iff.mp holds with ⟨_, step, later⟩
        rcases Schema.step?_list_eq_some_iff.mp step with ⟨rfl, rfl⟩
        rcases (Schema.at?_foldl_union rest compatible schemasDistinct).2 kind later with
          ⟨schema, member, held⟩
        rcases List.mem_cons.mp member with rfl | inItems
        · exact absurd held Schema.not_holds_scalar
        · rcases List.mem_map.mp inItems with ⟨item, itemMem, rfl⟩
          rcases each item itemMem rest kind held with ⟨place, inside, rfl, atPlace⟩
          rcases List.mem_iff_getElem?.mp itemMem with ⟨position, found⟩
          have step : (list items).step? (.index position) = some item := found
          exact ⟨.index position :: place, (cons_mem_places_iff distinct step).mpr inside, rfl,
            (kindAt?_cons step place).trans atPlace⟩
  | map fields ih =>
      intro path kind holds
      rw [Schema.infer_map] at holds
      rcases path with _ | ⟨first, rest⟩
      · exact ⟨[], nil_mem_places _, rfl, Schema.holds_nil_iff.mp holds⟩
      · rcases Schema.holds_cons_iff.mp holds with ⟨_, step, later⟩
        rcases Schema.step?_map_eq_some_iff.mp step with ⟨key, rfl, found⟩
        rw [Fields.get?_map, Option.map_eq_some_iff] at found
        rcases found with ⟨inner, found, rfl⟩
        have step : (map fields).step? (.key key) = some inner := found
        rcases ih _ (Fields.mem_of_get?_eq_some found) (keysDistinct_of_step? distinct step)
          (unmixed.of_step? distinct step) rest kind later with ⟨place, inside, rfl, atPlace⟩
        exact ⟨.key key :: place, (cons_mem_places_iff distinct step).mpr inside, rfl,
          (kindAt?_cons step place).trans atPlace⟩

theorem exists_at?_infer_iff {value : Value} (distinct : value.KeysDistinct)
    (unmixed : value.Unmixed) {path : Path} :
    (∃ shape, (Schema.infer value).at? path = some shape) ↔ value.IsPosition path := by
  induction value using induction_nodes generalizing path with
  | scalar value isScalar =>
      rw [Schema.infer_scalar isScalar]
      cases path with
      | nil => simp [isPosition_nil]
      | cons first rest => simp [Schema.at?_scalar_cons, not_isPosition_cons_scalar isScalar]
  | list items ih =>
      rcases path with _ | ⟨first, rest⟩
      · simp [isPosition_nil]
      · have each := keysDistinct_list_iff.mp distinct
        have unmixedItem : ∀ item ∈ items, item.Unmixed :=
          fun _ => unmixed.of_mem distinct
        have compatible := pairwise_compatible_infer distinct unmixed fun item member =>
          traced_of_unmixed (each item member) (unmixedItem item member)
        have shapes := (Schema.at?_foldl_union rest compatible (keysDistinct_map_infer each)).1
        have inside : (∃ item ∈ items, ∃ shape, (Schema.infer item).at? rest = some shape) ↔
            ∃ item ∈ items, item.IsPosition rest :=
          exists_congr fun item => and_congr_right fun member =>
            ih item member (each item member) (unmixedItem item member)
        simp only [List.exists_mem_cons_iff, Schema.exists_at?_scalar_iff, List.mem_map,
          exists_exists_and_eq_and, inside] at shapes
        rw [Schema.infer_list, isPosition_cons_list_iff distinct, ← shapes]
        simp only [Schema.at?_cons_eq_some_iff, Schema.step?_list_eq_some_iff]
        constructor
        · rintro ⟨shape, _, ⟨rfl, rfl⟩, held⟩
          exact ⟨rfl, shape, held⟩
        · rintro ⟨rfl, shape, held⟩
          exact ⟨shape, _, ⟨rfl, rfl⟩, held⟩
  | map fields ih =>
      rcases path with _ | ⟨first, rest⟩
      · simp [isPosition_nil]
      · have inside : ∀ {key inner}, Fields.get? fields key = some inner →
            ((∃ shape, (Schema.infer inner).at? rest = some shape) ↔ inner.IsPosition rest) := by
          intro key inner found
          have step : (map fields).step? (.key key) = some inner := found
          exact ih _ (Fields.mem_of_get?_eq_some found) (keysDistinct_of_step? distinct step)
            (unmixed.of_step? distinct step)
        rw [Schema.infer_map, isPosition_cons_map_iff distinct]
        simp only [Schema.at?_cons_eq_some_iff, Schema.step?_map_eq_some_iff, Fields.get?_map,
          Option.map_eq_some_iff]
        constructor
        · rintro ⟨shape, _, ⟨key, rfl, inner, found, rfl⟩, held⟩
          exact ⟨key, inner, rfl, found, (inside found).mp ⟨shape, held⟩⟩
        · rintro ⟨key, inner, rfl, found, position⟩
          rcases (inside found).mpr position with ⟨shape, held⟩
          exact ⟨shape, _, ⟨key, rfl, inner, found, rfl⟩, held⟩

/-! ### Coverage -/

section

variable {value : Value} {path : Path}

/-- The canonical paths of a value are the places that differ in their indexes from concrete paths,
and the elements that empty lists might have. -/
theorem mem_canonicalPaths_infer_iff (distinct : value.KeysDistinct) (unmixed : value.Unmixed) :
    path ∈ (Schema.infer value).canonicalPaths ↔
      (∃ place ∈ value.concretePaths, place.erase = path) ∨
        ∃ place ∈ value.places, value.get? place = some (.list []) ∧
          place.erase ++ [.any] = path := by
  have root : ([] : Path) ∉ (Schema.infer value).canonicalPaths :=
    (List.nodup_cons.mp (Schema.nodup_canonicalPaths (Schema.keysDistinct_infer distinct))).1
  have positions : path ∈ [] :: (Schema.infer value).canonicalPaths ↔ value.IsPosition path := by
    rw [Schema.mem_canonicalPaths_iff (Schema.keysDistinct_infer distinct),
      exists_at?_infer_iff distinct unmixed]
  rcases path with _ | ⟨first, rest⟩
  · have concrete : ([] : Path) ∉ value.concretePaths :=
      (List.nodup_cons.mp (nodup_places distinct)).1
    constructor
    · exact fun member => absurd member root
    · rintro (⟨place, member, same⟩ | ⟨place, _, _, same⟩)
      · cases List.map_eq_nil_iff.mp same
        exact absurd member concrete
      · simp at same
  · rw [List.mem_cons, or_iff_right (List.cons_ne_nil _ _)] at positions
    have below : (∃ place ∈ value.places, place.erase = first :: rest) ↔
        ∃ place ∈ value.concretePaths, place.erase = first :: rest := by
      rw [places, List.exists_mem_cons_iff]
      exact or_iff_right (List.cons_ne_nil _ _).symm
    rw [positions, IsPosition, below]

theorem covers_iff_of_mem (distinct : value.KeysDistinct) {pattern : Path}
    (canonical : pattern ∈ (Schema.infer value).canonicalPaths)
    (concrete : path ∈ value.concretePaths) : pattern.covers path ↔ path.erase = pattern := by
  rcases (mem_places_iff distinct).mp (List.mem_cons_of_mem [] concrete) with ⟨node, held⟩
  rcases (Schema.mem_canonicalPaths_iff (Schema.keysDistinct_infer distinct)).mp
    (List.mem_cons_of_mem [] canonical) with ⟨shape, shaped⟩
  exact Path.covers_iff_erase_eq (Schema.erase_eq_of_at? shaped) (any_notMem_of_get? held)

theorem existsUnique_covers (distinct : value.KeysDistinct) (unmixed : value.Unmixed)
    (concrete : path ∈ value.concretePaths) :
    ∃! pattern, pattern ∈ (Schema.infer value).canonicalPaths ∧ pattern.covers path := by
  have member : path.erase ∈ (Schema.infer value).canonicalPaths :=
    (mem_canonicalPaths_infer_iff distinct unmixed).mpr (Or.inl ⟨path, concrete, rfl⟩)
  refine ⟨path.erase, ⟨member, (covers_iff_of_mem distinct member concrete).mpr rfl⟩, ?_⟩
  rintro pattern ⟨canonical, covered⟩
  exact ((covers_iff_of_mem distinct canonical concrete).mp covered).symm

/-- What the canonical paths cover, taken together, is the list of the concrete paths. -/
theorem perm_flatMap_covers (distinct : value.KeysDistinct) (unmixed : value.Unmixed) :
    ((Schema.infer value).canonicalPaths.flatMap fun pattern =>
      value.concretePaths.filter pattern.covers).Perm value.concretePaths := by
  have concreteNodup := (List.nodup_cons.mp (nodup_places distinct)).2
  have canonicalNodup :=
    (List.nodup_cons.mp (Schema.nodup_canonicalPaths (Schema.keysDistinct_infer distinct))).2
  have nodup : ((Schema.infer value).canonicalPaths.flatMap fun pattern =>
      value.concretePaths.filter pattern.covers).Nodup := by
    rw [List.nodup_flatMap]
    refine ⟨fun pattern _ => concreteNodup.filter _, ?_⟩
    apply canonicalNodup.imp_of_mem
    intro pattern other canonical otherCanonical different path covered otherCovered
    rw [List.mem_filter] at covered otherCovered
    rcases existsUnique_covers distinct unmixed covered.1 with ⟨_, _, only⟩
    exact different ((only pattern ⟨canonical, covered.2⟩).trans
      (only other ⟨otherCanonical, otherCovered.2⟩).symm)
  rw [List.perm_ext_iff_of_nodup nodup concreteNodup]
  intro path
  simp only [List.mem_flatMap, List.mem_filter]
  constructor
  · rintro ⟨pattern, _, concrete, _⟩
    exact concrete
  · intro concrete
    rcases existsUnique_covers distinct unmixed concrete with ⟨pattern, ⟨canonical, covered⟩, _⟩
    exact ⟨pattern, canonical, concrete, covered⟩

end

/-- The canonical paths of a value no position of which is a map at one node and a list at another
are, without repetition, the concrete paths with their indexes forgotten and the elements that empty
lists might have.  One of them covers each concrete path, and their rows together are those of the
concrete paths, each once. -/
theorem canonicalPaths_infer_partition {value : Value} (distinct : value.KeysDistinct)
    (unmixed : value.Unmixed) :
    (Schema.infer value).canonicalPaths.Nodup ∧
    (∀ path, path ∈ (Schema.infer value).canonicalPaths ↔
      (∃ place ∈ value.concretePaths, place.erase = path) ∨
        ∃ place ∈ value.places, value.get? place = some (.list []) ∧
          place.erase ++ [.any] = path) ∧
    (∀ path ∈ value.concretePaths,
      ∃! pattern, pattern ∈ (Schema.infer value).canonicalPaths ∧ pattern.covers path) ∧
    value.concretePaths.Nodup ∧
    ((Schema.infer value).canonicalPaths.flatMap fun pattern =>
      value.concretePaths.filter pattern.covers).Perm value.concretePaths ∧
    ∀ pattern, (value.branches pattern).map some =
      (value.concretePaths.filter pattern.covers).map value.row? := by
  have canonicalNodup := Schema.nodup_canonicalPaths (Schema.keysDistinct_infer distinct)
  refine ⟨(List.nodup_cons.mp canonicalNodup).2, ?_, ?_, ?_, ?_, ?_⟩
  · exact fun path => mem_canonicalPaths_infer_iff distinct unmixed
  · exact fun path concrete => existsUnique_covers distinct unmixed concrete
  · exact (List.nodup_cons.mp (nodup_places distinct)).2
  · exact perm_flatMap_covers distinct unmixed
  · exact map_some_branches distinct

/-- Elements of which one is a scalar and one has no tags, next to a list without elements. -/
def sparseItems : Value :=
  map [("items", list [map [("tags", list [])], none, map [("tags", list [none, list [none]])]]),
    ("spares", list [])]

/-- The canonical paths of the elements with tags, and of the element that is not there. -/
theorem canonicalPaths_sparseItems :
    sparseItems.KeysDistinct ∧ sparseItems.Unmixed ∧
      [.key "items", .any, .key "tags", .any, .any] ∈ (Schema.infer sparseItems).canonicalPaths ∧
      [.key "spares", .any] ∈ (Schema.infer sparseItems).canonicalPaths ∧
      ∃! pattern, pattern ∈ (Schema.infer sparseItems).canonicalPaths ∧
        pattern.covers [.key "items", .index 2, .key "tags"] := by
  have distinct : sparseItems.KeysDistinct := by
    simp [sparseItems, KeysDistinct, ItemsKeysDistinct, EntriesKeysDistinct, Fields.Distinct,
      Fields.keys]
  have unmixed : sparseItems.Unmixed := by
    decide
  rcases canonicalPaths_infer_partition distinct unmixed with ⟨_, members, covered, _⟩
  refine ⟨distinct, unmixed, (members _).mpr (Or.inl ?_), (members _).mpr (Or.inr ?_), ?_⟩
  · exact ⟨[.key "items", .index 2, .key "tags", .index 1, .index 0], by decide, rfl⟩
  · exact ⟨[.key "spares"], by decide, rfl, rfl⟩
  · exact covered _ (by decide)

end Value

end GraphTemplate
