import GraphTemplate.Proofs.Tree.Coverage

/-!
# Union as a merge of schemas

The union of two schemas has no shape at a path where neither of them has one, and it keeps every
shape of the first.  Among compatible schemas it loses nothing of the second either: it does not matter
in which order three of them are joined, and two of them give the same schema either way round, up to
the order of keys.  So the shape of a list can be worked out in parts.
-/

namespace GraphTemplate

namespace Fields

variable {α : Type}

/-- Fields with distinct keys are determined by their keys in order and the value of each. -/
theorem eq_of_keys_of_get? {fields others : Fields α} (distinct : fields.Distinct)
    (keys : fields.keys = others.keys) (values : ∀ key, fields.get? key = others.get? key) :
    fields = others := by
  induction fields generalizing others with
  | nil => exact (List.map_eq_nil_iff.mp keys.symm).symm
  | cons entry rest ih =>
      rcases entry with ⟨key, value⟩
      rcases others with _ | ⟨⟨otherKey, otherValue⟩, otherRest⟩
      · cases keys
      · simp only [keys_cons, List.cons.injEq] at keys
        rcases keys with ⟨rfl, restKeys⟩
        have first := values key
        simp only [get?_cons, if_true, Option.some.injEq] at first
        subst first
        simp only [Distinct, keys_cons, List.nodup_cons] at distinct
        have restValues : ∀ name, get? rest name = get? otherRest name := by
          intro name
          by_cases same : key = name
          · subst same
            have absent : key ∉ keys otherRest := by
              rw [← restKeys]
              exact distinct.1
            rw [get?_eq_none_iff.mpr distinct.1, get?_eq_none_iff.mpr absent]
          · have later := values name
            simpa [get?_cons, same] using later
        rw [ih distinct.2 restKeys restValues]

end Fields

/-- Joining what is there of three is associative if joining all three is. -/
theorem Option.merge_merge {α : Type} {join : α → α → α} {first second third : Option α}
    (assoc : ∀ one ∈ first, ∀ two ∈ second, ∀ three ∈ third,
      join (join one two) three = join one (join two three)) :
    Option.merge join (Option.merge join first second) third =
      Option.merge join first (Option.merge join second third) := by
  cases first with
  | none => simp
  | some one =>
      cases second with
      | none => simp
      | some two =>
          cases third with
          | none => simp
          | some three => simp [assoc]

namespace Schema

variable {first second third : Schema}

/-! ### Keys of united maps -/

/-- New keys come behind the known ones, in their order. -/
theorem keys_unionEntries (fields : Fields Schema) {others : Fields Schema}
    (distinct : others.Distinct) :
    (unionEntries fields others).keys = fields.keys ++ others.keys.filter (· ∉ fields.keys) := by
  induction others generalizing fields with
  | nil => simp [unionEntries]
  | cons entry rest ih =>
      rcases entry with ⟨key, shape⟩
      simp only [Fields.Distinct, Fields.keys_cons, List.nodup_cons] at distinct
      rw [unionEntries, ih _ distinct.2, Fields.keys_insert, Fields.keys_cons]
      by_cases known : key ∈ fields.keys
      · simp [known]
      · have others : ∀ name ∈ Fields.keys rest, name ≠ key := by
          rintro name member rfl
          exact distinct.1 member
        simp only [known, if_false, not_false_eq_true, decide_true, List.filter_cons_of_pos,
          List.append_assoc, List.singleton_append, List.append_cancel_left_eq, List.cons.injEq, true_and]
        apply List.filter_congr
        intro name member
        simp [others name member]

theorem mem_keys_unionEntries {fields others : Fields Schema} (distinct : others.Distinct)
    {key : String} :
    key ∈ (unionEntries fields others).keys ↔ key ∈ fields.keys ∨ key ∈ others.keys := by
  simp only [keys_unionEntries fields distinct, List.mem_append, List.mem_filter, decide_eq_true_eq]
  tauto

theorem distinct_unionEntries {fields others : Fields Schema} (distinct : fields.Distinct)
    (otherDistinct : others.Distinct) : (unionEntries fields others).Distinct := by
  unfold Fields.Distinct at *
  rw [keys_unionEntries fields otherDistinct, List.nodup_append]
  refine ⟨distinct, otherDistinct.filter _, ?_⟩
  rintro key member _ otherMember rfl
  simp [member] at otherMember

theorem keys_unionEntries_assoc (fields : Fields Schema) {others lasts : Fields Schema}
    (distinct : others.Distinct) (lastDistinct : lasts.Distinct) :
    (unionEntries (unionEntries fields others) lasts).keys =
      (unionEntries fields (unionEntries others lasts)).keys := by
  rw [keys_unionEntries _ lastDistinct, keys_unionEntries fields distinct,
    keys_unionEntries fields (distinct_unionEntries distinct lastDistinct),
    keys_unionEntries others lastDistinct, List.filter_append, List.filter_filter, List.append_assoc]
  congr 2
  apply List.filter_congr
  intro key _
  by_cases known : key ∈ fields.keys <;> simp [known]

/-! ### Algebra of the union -/

theorem union_self (distinct : first.KeysDistinct) : first.union first = first := by
  induction first using induction_shapes with
  | scalar => rw [union_scalar]
  | list element ih => rw [list_union_list, ih distinct]
  | map fields ih =>
      rw [keysDistinct_map_iff] at distinct
      rw [map_union_map]
      congr 1
      have keys : (unionEntries fields fields).keys = Fields.keys fields := by
        simp [keys_unionEntries fields distinct.1]
      apply Fields.eq_of_keys_of_get? (distinct_unionEntries distinct.1 distinct.1) keys
      intro key
      rw [get?_unionEntries fields distinct.1]
      cases found : Fields.get? fields key with
      | none => rfl
      | some shape =>
          have member := Fields.mem_of_get?_eq_some found
          simp [ih _ member (distinct.2 _ member)]

theorem not_compatible_map_list {fields : List (String × Schema)} {element : Schema} :
    ¬ Compatible (map fields) (list element) := by
  intro compatible
  cases compatible [] .map .list (holds_nil_iff.mpr rfl) (holds_nil_iff.mpr rfl)

theorem Compatible.symm (compatible : Compatible first second) : Compatible second first :=
  fun path kind otherKind holds otherHolds =>
    (compatible path otherKind kind otherHolds holds).symm

theorem Compatible.of_get? {fields others : List (String × Schema)}
    (compatible : Compatible (map fields) (map others)) {key : String} {shape other : Schema}
    (found : Fields.get? fields key = some shape) (otherFound : Fields.get? others key = some other) :
    Compatible shape other := by
  have step : (map fields).step? (.key key) = some shape := found
  have otherStep : (map others).step? (.key key) = some other := otherFound
  exact compatible.below step otherStep

theorem Compatible.of_lists {element other : Schema}
    (compatible : Compatible (list element) (list other)) : Compatible element other := by
  have step : (list element).step? .any = some element := rfl
  exact compatible.below step rfl

/-- It does not matter which two of three compatible schemas are united first. -/
theorem union_assoc (firstDistinct : first.KeysDistinct)
    (secondDistinct : second.KeysDistinct) (thirdDistinct : third.KeysDistinct)
    (firstSecond : Compatible first second) (firstThird : Compatible first third)
    (secondThird : Compatible second third) :
    (first.union second).union third = first.union (second.union third) := by
  induction third using induction_shapes generalizing first second with
  | scalar => simp
  | list last ih =>
      cases first with
      | scalar => simp
      | map fields => exact absurd firstThird not_compatible_map_list
      | list element =>
          cases second with
          | scalar => simp
          | map others => exact absurd secondThird not_compatible_map_list
          | list other =>
              have otherDistinct : other.KeysDistinct := secondDistinct
              have lastDistinct : last.KeysDistinct := thirdDistinct
              have elementDistinct : element.KeysDistinct := firstDistinct
              simp only [list_union_list]
              rw [ih elementDistinct otherDistinct lastDistinct firstSecond.of_lists firstThird.of_lists
                secondThird.of_lists]
  | map lasts ih =>
      cases first with
      | scalar => simp
      | list element => exact absurd firstThird.symm not_compatible_map_list
      | map fields =>
          cases second with
          | scalar => simp
          | list other => exact absurd secondThird.symm not_compatible_map_list
          | map others =>
              rw [keysDistinct_map_iff] at firstDistinct secondDistinct thirdDistinct
              simp only [map_union_map, map.injEq]
              have united := distinct_unionEntries firstDistinct.1 secondDistinct.1
              apply Fields.eq_of_keys_of_get? (distinct_unionEntries united thirdDistinct.1)
              · exact keys_unionEntries_assoc fields secondDistinct.1 thirdDistinct.1
              · intro key
                have later := distinct_unionEntries secondDistinct.1 thirdDistinct.1
                simp only [get?_unionEntries _ secondDistinct.1, get?_unionEntries _ thirdDistinct.1,
                  get?_unionEntries _ later]
                apply Option.merge_merge
                intro shape found other otherFound last lastFound
                have entryMem := Fields.mem_of_get?_eq_some found
                have otherMem := Fields.mem_of_get?_eq_some otherFound
                have lastMem := Fields.mem_of_get?_eq_some lastFound
                exact ih _ lastMem (firstDistinct.2 _ entryMem) (secondDistinct.2 _ otherMem)
                  (thirdDistinct.2 _ lastMem) (firstSecond.of_get? found otherFound)
                  (firstThird.of_get? found lastFound) (secondThird.of_get? otherFound lastFound)

theorem same_map_iff {fields others : List (String × Schema)} :
    (map fields).same (map others) ↔ fields.length = others.length ∧
      ∀ entry ∈ fields, ∃ other, Fields.get? others entry.1 = some other ∧ entry.2.same other := by
  rw [same, Bool.and_eq_true, beq_iff_eq]
  have entries : sameEntries fields others ↔
      ∀ entry ∈ fields, ∃ other, Fields.get? others entry.1 = some other ∧ entry.2.same other := by
    induction fields with
    | nil => simp [sameEntries]
    | cons entry rest ih =>
        rcases entry with ⟨key, shape⟩
        simp only [sameEntries, Bool.and_eq_true, ih, List.forall_mem_cons]
        cases Fields.get? others key <;> simp
  rw [entries]

theorem same_list_iff {element other : Schema} :
    (list element).same (list other) ↔ element.same other := by
  rw [same]

theorem same_self (distinct : first.KeysDistinct) : first.same first := by
  induction first using induction_shapes with
  | scalar => rw [same]
  | list element ih => exact same_list_iff.mpr (ih distinct)
  | map fields ih =>
      rw [keysDistinct_map_iff] at distinct
      refine same_map_iff.mpr ⟨rfl, ?_⟩
      rintro ⟨key, shape⟩ member
      exact ⟨shape, Fields.get?_eq_some_of_mem distinct.1 member, ih _ member (distinct.2 _ member)⟩

/-- Two compatible schemas can be united either way round; only the order of keys may differ. -/
theorem union_comm_same (firstDistinct : first.KeysDistinct) (secondDistinct : second.KeysDistinct)
    (compatible : Compatible first second) : (first.union second).same (second.union first) := by
  induction second using induction_shapes generalizing first with
  | scalar =>
      rw [union_scalar, scalar_union]
      exact same_self firstDistinct
  | list other ih =>
      cases first with
      | scalar =>
          rw [union_scalar, scalar_union]
          exact same_self secondDistinct
      | map fields => exact absurd compatible not_compatible_map_list
      | list element =>
          have elementDistinct : element.KeysDistinct := firstDistinct
          have otherDistinct : other.KeysDistinct := secondDistinct
          rw [list_union_list, list_union_list, same_list_iff]
          exact ih elementDistinct otherDistinct compatible.of_lists
  | map others ih =>
      cases first with
      | scalar =>
          rw [union_scalar, scalar_union]
          exact same_self secondDistinct
      | list element => exact absurd compatible.symm not_compatible_map_list
      | map fields =>
          rw [keysDistinct_map_iff] at firstDistinct secondDistinct
          have united := distinct_unionEntries firstDistinct.1 secondDistinct.1
          have reversed := distinct_unionEntries secondDistinct.1 firstDistinct.1
          rw [map_union_map, map_union_map, same_map_iff]
          constructor
          · have keys : (unionEntries fields others).keys.Perm (unionEntries others fields).keys := by
              rw [List.perm_ext_iff_of_nodup united reversed]
              intro key
              rw [mem_keys_unionEntries secondDistinct.1, mem_keys_unionEntries firstDistinct.1, or_comm]
            simpa [Fields.keys] using keys.length_eq
          · rintro ⟨key, shape⟩ member
            have found := Fields.get?_eq_some_of_mem united member
            rw [get?_unionEntries fields secondDistinct.1] at found
            rw [get?_unionEntries others firstDistinct.1]
            cases own : Fields.get? fields key with
            | none =>
                rw [own, Option.merge_none_left] at found
                have otherMem := Fields.mem_of_get?_eq_some found
                exact ⟨shape, by simp [found], same_self (secondDistinct.2 _ otherMem)⟩
            | some held =>
                have ownMem := Fields.mem_of_get?_eq_some own
                cases other : Fields.get? others key with
                | none =>
                    rw [own, other, Option.merge_none_right] at found
                    cases found
                    exact ⟨shape, by simp, same_self (firstDistinct.2 _ ownMem)⟩
                | some otherHeld =>
                    rw [own, other, Option.merge_some_some] at found
                    cases found
                    have otherMem := Fields.mem_of_get?_eq_some other
                    refine ⟨otherHeld.union held, by simp, ?_⟩
                    exact ih _ otherMem (firstDistinct.2 _ ownMem) (secondDistinct.2 _ otherMem)
                      (compatible.of_get? own other)

/-! ### Canonical paths of a union -/

/-- A union keeps every shape of its first schema. -/
theorem exists_at?_union_of_left (secondDistinct : second.KeysDistinct) {path : Path}
    (held : ∃ shape, first.at? path = some shape) :
    ∃ shape, (first.union second).at? path = some shape := by
  induction path generalizing first second with
  | nil => simp
  | cons segment rest ih =>
      rcases step?_union_or_clash first secondDistinct with united | ⟨_, _, _, _, _, kept⟩
      · rcases held with ⟨shape, held⟩
        rcases at?_cons_eq_some_iff.mp held with ⟨below, step, later⟩
        rw [at?_cons, united segment, step]
        cases otherStep : second.step? segment with
        | none => exact ⟨shape, by simpa using later⟩
        | some other => exact ih (keysDistinct_of_step? secondDistinct otherStep) ⟨shape, later⟩
      · rwa [kept]

/-- Where a union has a shape one of its schemas has one. -/
theorem exists_at?_or_of_union (secondDistinct : second.KeysDistinct) {path : Path}
    (held : ∃ shape, (first.union second).at? path = some shape) :
    (∃ shape, first.at? path = some shape) ∨ ∃ shape, second.at? path = some shape := by
  induction path generalizing first second with
  | nil => simp
  | cons segment rest ih =>
      rcases step?_union_or_clash first secondDistinct with united | ⟨_, _, _, _, _, kept⟩
      · simp only [at?_cons, united segment] at held ⊢
        cases step : first.step? segment with
        | none =>
            rw [step, Option.merge_none_left] at held
            exact Or.inr held
        | some below =>
            cases otherStep : second.step? segment with
            | none =>
                rw [step, otherStep, Option.merge_none_right] at held
                exact Or.inl held
            | some other =>
                rw [step, otherStep] at held
                exact ih (keysDistinct_of_step? secondDistinct otherStep) held
      · rw [kept] at held
        exact Or.inl held

/-- The canonical paths of a schema are those at which it has a shape below its root. -/
theorem mem_canonicalPaths_iff_exists_at? (distinct : first.KeysDistinct) {path : Path} :
    path ∈ first.canonicalPaths ↔ path ≠ [] ∧ ∃ shape, first.at? path = some shape := by
  have rootOnce := (List.nodup_cons.mp (nodup_canonicalPaths distinct)).1
  have held : path = [] ∨ path ∈ first.canonicalPaths ↔ ∃ shape, first.at? path = some shape := by
    simpa using mem_canonicalPaths_iff distinct
  constructor
  · intro member
    refine ⟨?_, held.mp (Or.inr member)⟩
    rintro rfl
    exact rootOnce member
  · rintro ⟨inside, shaped⟩
    exact (held.mpr shaped).resolve_left inside

theorem canonicalPaths_subset_union (firstDistinct : first.KeysDistinct)
    (secondDistinct : second.KeysDistinct) :
    first.canonicalPaths ⊆ (first.union second).canonicalPaths := by
  intro path member
  rcases (mem_canonicalPaths_iff_exists_at? firstDistinct).mp member with ⟨inside, held⟩
  apply (mem_canonicalPaths_iff_exists_at? (keysDistinct_union firstDistinct secondDistinct)).mpr
  exact ⟨inside, exists_at?_union_of_left secondDistinct held⟩

theorem canonicalPaths_union_subset (firstDistinct : first.KeysDistinct)
    (secondDistinct : second.KeysDistinct) :
    (first.union second).canonicalPaths ⊆ first.canonicalPaths ++ second.canonicalPaths := by
  have united := keysDistinct_union firstDistinct secondDistinct
  intro path member
  rcases (mem_canonicalPaths_iff_exists_at? united).mp member with ⟨inside, held⟩
  rw [List.mem_append, mem_canonicalPaths_iff_exists_at? firstDistinct,
    mem_canonicalPaths_iff_exists_at? secondDistinct]
  rcases exists_at?_or_of_union secondDistinct held with own | other
  · exact Or.inl ⟨inside, own⟩
  · exact Or.inr ⟨inside, other⟩

theorem Compatible.mem_canonicalPaths_union (compatible : Compatible first second)
    (firstDistinct : first.KeysDistinct) (secondDistinct : second.KeysDistinct) {path : Path} :
    path ∈ (first.union second).canonicalPaths ↔
      path ∈ first.canonicalPaths ∨ path ∈ second.canonicalPaths := by
  rw [mem_canonicalPaths_iff_exists_at? (keysDistinct_union firstDistinct secondDistinct),
    mem_canonicalPaths_iff_exists_at? firstDistinct,
    mem_canonicalPaths_iff_exists_at? secondDistinct, compatible.exists_at?_union secondDistinct,
    and_or_left]

/-! ### Lists in parts -/

theorem Compatible.foldl_union {schemas : List Schema}
    (each : ∀ schema ∈ schemas, Compatible first schema) (compatible : schemas.Pairwise Compatible)
    (distinct : ∀ schema ∈ schemas, schema.KeysDistinct) :
    Compatible first (schemas.foldl union scalar) := by
  intro path kind otherKind holds otherHolds
  have all : (scalar :: schemas).Pairwise Compatible :=
    List.pairwise_cons.mpr ⟨fun schema _ => scalar_left schema, compatible⟩
  rcases (at?_foldl_union path all distinct).2 otherKind otherHolds with ⟨schema, member, held⟩
  rcases List.mem_cons.mp member with rfl | inSchemas
  · exact absurd held not_holds_scalar
  · exact each schema inSchemas path kind otherKind holds held

/-- Uniting compatible schemas one after the other adds to the first what the others give together. -/
theorem foldl_union_eq_union {start : Schema} {schemas : List Schema}
    (startDistinct : start.KeysDistinct) (distinct : ∀ schema ∈ schemas, schema.KeysDistinct)
    (compatible : (start :: schemas).Pairwise Compatible) :
    schemas.foldl union start = start.union (schemas.foldl union scalar) := by
  induction schemas generalizing start with
  | nil => simp
  | cons schema rest ih =>
      simp only [List.forall_mem_cons] at distinct
      simp only [List.pairwise_cons, List.forall_mem_cons] at compatible
      rcases compatible with ⟨⟨startFirst, startRest⟩, firstRest, others⟩
      have united := keysDistinct_union startDistinct distinct.1
      have unitedRest : ∀ other ∈ rest, Compatible (start.union schema) other := by
        intro other member
        exact startFirst.union_left distinct.1 (startRest other member) (firstRest other member)
      have restDistinct : (rest.foldl union scalar).KeysDistinct :=
        keysDistinct_foldl_union trivial distinct.2
      calc
        (schema :: rest).foldl union start = (start.union schema).union (rest.foldl union scalar) :=
          ih united distinct.2 (List.pairwise_cons.mpr ⟨unitedRest, others⟩)
        _ = start.union (schema.union (rest.foldl union scalar)) :=
          union_assoc startDistinct distinct.1 restDistinct startFirst
            (Compatible.foldl_union startRest others distinct.2)
            (Compatible.foldl_union firstRest others distinct.2)
        _ = start.union (rest.foldl union schema) := by
          rw [ih distinct.1 distinct.2 (List.pairwise_cons.mpr ⟨firstRest, others⟩)]
        _ = start.union ((schema :: rest).foldl union scalar) := by
          rw [List.foldl_cons, scalar_union]

/-- The shape of a list whose elements have compatible shapes is the union of the shapes of its
parts. -/
theorem infer_list_append {items others : List Value}
    (distinct : ∀ item ∈ items ++ others, item.KeysDistinct)
    (compatible : ((items ++ others).map infer).Pairwise Compatible) :
    infer (.list (items ++ others)) = (infer (.list items)).union (infer (.list others)) := by
  have schemasDistinct := Value.keysDistinct_map_infer distinct
  rw [List.map_append] at compatible schemasDistinct
  simp only [List.mem_append, or_imp, forall_and] at schemasDistinct
  rcases List.pairwise_append.mp compatible with ⟨own, other, across⟩
  have front : ((items.map infer).foldl union scalar).KeysDistinct :=
    keysDistinct_foldl_union trivial schemasDistinct.1
  have frontOthers : ∀ schema ∈ others.map infer,
      Compatible ((items.map infer).foldl union scalar) schema := by
    intro schema member
    apply Compatible.symm
    apply Compatible.foldl_union _ own schemasDistinct.1
    intro item itemMem
    exact (across item itemMem schema member).symm
  rw [infer_list, infer_list, infer_list, list_union_list, List.map_append, List.foldl_append]
  rw [foldl_union_eq_union front schemasDistinct.2 (List.pairwise_cons.mpr ⟨frontOthers, other⟩)]

/-- The union is a merge: a schema adds nothing to itself and the scalar nothing to any; a union has
the canonical paths of its first schema and none that neither schema has, and all of both if they are
compatible; compatible schemas are united in any grouping with the same result, and in either order
with the same result up to the order of keys.  So the shape of a list is the union of the shapes of
its parts. -/
theorem union_merges (firstDistinct : first.KeysDistinct) (secondDistinct : second.KeysDistinct)
    (thirdDistinct : third.KeysDistinct) :
    (first.union first = first ∧ scalar.union first = first ∧ first.union scalar = first) ∧
    (first.canonicalPaths ⊆ (first.union second).canonicalPaths ∧
      (first.union second).canonicalPaths ⊆ first.canonicalPaths ++ second.canonicalPaths ∧
      (Compatible first second → ∀ path, path ∈ (first.union second).canonicalPaths ↔
        path ∈ first.canonicalPaths ∨ path ∈ second.canonicalPaths)) ∧
    (Compatible first second → Compatible first third → Compatible second third →
      (first.union second).union third = first.union (second.union third)) ∧
    (Compatible first second → (first.union second).same (second.union first)) ∧
    ∀ items others : List Value, (∀ item ∈ items ++ others, item.KeysDistinct) →
      ((items ++ others).map infer).Pairwise Compatible →
      infer (.list (items ++ others)) = (infer (.list items)).union (infer (.list others)) := by
  refine ⟨⟨union_self firstDistinct, scalar_union first, union_scalar first⟩, ⟨?_, ?_, ?_⟩, ?_, ?_, ?_⟩
  · exact canonicalPaths_subset_union firstDistinct secondDistinct
  · exact canonicalPaths_union_subset firstDistinct secondDistinct
  · exact fun compatible path => compatible.mem_canonicalPaths_union firstDistinct secondDistinct
  · exact union_assoc firstDistinct secondDistinct thirdDistinct
  · exact union_comm_same firstDistinct secondDistinct
  · exact fun items others => infer_list_append

def untaggedRow : Value :=
  .map [("id", .none), ("tags", .list [])]

def taggedRow : Value :=
  .map [("tags", .list [.map [("name", .none)], .none]), ("size", .map [("width", .none)])]

def sizedRow : Value :=
  .map [("size", .map [("height", .none), ("width", .none)]), ("id", .none)]

/-- Rows that know different things about their tags and sizes, in different orders. -/
theorem union_merges_rows :
    (∀ row ∈ [untaggedRow] ++ [taggedRow, sizedRow], row.KeysDistinct) ∧
    (([untaggedRow] ++ [taggedRow, sizedRow]).map infer).Pairwise Compatible ∧
    [.key "tags", .any, .key "name"] ∈
      ((infer untaggedRow).union (infer taggedRow)).canonicalPaths ∧
    ((infer untaggedRow).union (infer taggedRow)).union (infer sizedRow) =
      (infer untaggedRow).union ((infer taggedRow).union (infer sizedRow)) ∧
    ((infer untaggedRow).union (infer taggedRow)).same
      ((infer taggedRow).union (infer untaggedRow)) ∧
    infer (.list ([untaggedRow] ++ [taggedRow, sizedRow])) =
      (infer (.list [untaggedRow])).union (infer (.list [taggedRow, sizedRow])) := by
  have distinct : ∀ row ∈ [untaggedRow] ++ [taggedRow, sizedRow], row.KeysDistinct := by
    simp [untaggedRow, taggedRow, sizedRow, Value.KeysDistinct, Value.ItemsKeysDistinct,
      Value.EntriesKeysDistinct, Fields.Distinct, Fields.keys]
  have rowsDistinct := Value.keysDistinct_list_iff.mpr distinct
  have unmixed : (Value.list ([untaggedRow] ++ [taggedRow, sizedRow])).Unmixed := by
    decide
  have compatible : (([untaggedRow] ++ [taggedRow, sizedRow]).map infer).Pairwise Compatible := by
    apply (List.pairwise_cons.mp (Value.pairwise_compatible_infer rowsDistinct unmixed _)).2
    intro row member
    exact Value.traced_of_unmixed (distinct row member) (unmixed.of_mem rowsDistinct member)
  have pairs := compatible
  simp only [List.cons_append, List.nil_append, List.map_cons, List.map_nil, List.pairwise_cons,
    List.forall_mem_cons] at pairs
  rcases pairs with ⟨⟨untaggedTagged, untaggedSized, _⟩, ⟨taggedSized, _⟩, _⟩
  rcases union_merges (keysDistinct_infer (distinct untaggedRow (by simp)))
    (keysDistinct_infer (distinct taggedRow (by simp)))
    (keysDistinct_infer (distinct sizedRow (by simp))) with ⟨_, ⟨_, _, paths⟩, assoc, comm, parts⟩
  refine ⟨distinct, compatible, (paths untaggedTagged _).mpr (Or.inr (by decide)), ?_, ?_, ?_⟩
  · exact assoc untaggedTagged untaggedSized taggedSized
  · exact comm untaggedTagged
  · exact parts _ _ distinct compatible

end Schema

end GraphTemplate
