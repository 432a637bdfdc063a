import GraphTemplate.Proofs.Schema.Chains
import Mathlib.Data.List.Induction

/-!
# Relations in the tree of an object

An object becomes a map and each of its relations a list of maps.  A walk along a chain of relations
yields the elements that the canonical path of the chain covers in the tree, in the same order.

The schema of the tree has a list for each relation of the chain, whatever else the elements of a
relation have: the shapes of lists unite to a list, and an empty relation adds nothing.  It goes on
to the end of the chain because one object at least gets there.
-/

namespace GraphTemplate

/-! ### The values of objects -/

namespace Object

theorem elementsToItems_eq (elements : List Object) :
    elementsToItems elements = elements.map toValue := by
  induction elements with
  | nil => rfl
  | cons element rest ih => rw [elementsToItems, ih, List.map_cons]

theorem attrsToEntries_eq (attrs : List (String × Attr)) :
    attrsToEntries attrs = attrs.map fun entry => (entry.1, entry.2.toValue) := by
  induction attrs with
  | nil => rfl
  | cons entry rest ih => rw [attrsToEntries, ih, List.map_cons]

theorem toValue_eq (o : Object) :
    o.toValue = .map (o.attrs.map fun entry => (entry.1, entry.2.toValue)) := by
  rcases o with ⟨attrs⟩
  rw [toValue, attrsToEntries_eq]
  rfl

theorem distinct_attrsToEntries {attrs : List (String × Attr)} (distinct : Fields.Distinct attrs) :
    Fields.Distinct (attrsToEntries attrs) := by
  have keys : Fields.keys (attrsToEntries attrs) = Fields.keys attrs := by
    simp [attrsToEntries_eq, Fields.keys]
  rw [Fields.Distinct, keys]
  exact distinct

end Object

mutual

theorem Attr.keysDistinct_toValue :
    ∀ {attr : Attr}, attr.NamesDistinct → attr.toValue.KeysDistinct
  | .value _, distinct => distinct
  | .object o, distinct => o.keysDistinct_toValue distinct
  | .relation _, distinct => Object.itemsKeysDistinct_elements distinct

/-- The value of an object whose names are distinct repeats no key. -/
theorem Object.keysDistinct_toValue :
    ∀ (o : Object), o.NamesDistinct → o.toValue.KeysDistinct
  | .mk _, distinct =>
      ⟨Object.distinct_attrsToEntries distinct.1, Object.entriesKeysDistinct_attrs distinct.2⟩

theorem Object.itemsKeysDistinct_elements :
    ∀ {elements : List Object}, Object.ElementsNamesDistinct elements →
      Value.ItemsKeysDistinct (Object.elementsToItems elements)
  | [], _ => trivial
  | element :: _, distinct =>
      ⟨element.keysDistinct_toValue distinct.1, Object.itemsKeysDistinct_elements distinct.2⟩

theorem Object.entriesKeysDistinct_attrs :
    ∀ {attrs : List (String × Attr)}, Object.AttrsNamesDistinct attrs →
      Value.EntriesKeysDistinct (Object.attrsToEntries attrs)
  | [], _ => trivial
  | (_, _) :: _, distinct =>
      ⟨Attr.keysDistinct_toValue distinct.1, Object.entriesKeysDistinct_attrs distinct.2⟩

end

/-! ### Walks along relations -/

namespace Object

/-- Each object on the way along a chain exposes the next name as a relation. -/
def ExposesAlong : List String → Object → Prop
  | [], _ => True
  | name :: rest, o =>
      ∃ elements, o.relation? name = some elements ∧ ∀ element ∈ elements, element.ExposesAlong rest

/-- The elements at the end of a chain of relations. -/
def elementsAlong : List String → Object → List Object
  | [], o => [o]
  | name :: rest, o => ((o.relation? name).getD []).flatMap (elementsAlong rest)

theorem elementsAlong_cons {o : Object} {name : String} {elements : List Object}
    (exposed : o.relation? name = some elements) (rest : List String) :
    o.elementsAlong (name :: rest) = elements.flatMap (elementsAlong rest) := by
  rw [elementsAlong, exposed, Option.getD_some]

theorem ExposesAlong.reach {chain : List String} {o : Object} (exposes : o.ExposesAlong chain) :
    o.reach chain = (o.elementsAlong chain).map fun element => .ok (.object element) := by
  induction chain generalizing o with
  | nil => rfl
  | cons name rest ih =>
      rcases exposes with ⟨elements, exposed, further⟩
      rw [Object.reach, attr?_eq_of_relation? exposed, elementsAlong_cons exposed, List.map_flatMap]
      exact List.flatMap_congr fun element member => ih (further element member)

/-- A walk along relations yields objects only. -/
theorem ExposesAlong.toList_start {chain : List String} {o : Object}
    (exposes : o.ExposesAlong chain) : (Walker.start o chain).toList =
      (o.elementsAlong chain).map fun element => .ok (.object element) := by
  rw [Walker.toList_start, exposes.reach]
  induction o.elementsAlong chain with
  | nil => rfl
  | cons element rest ih => rw [List.map_cons, cutAfterError, ih]

theorem ExposesAlong.of_append {front back : List String} {o : Object}
    (exposes : o.ExposesAlong (front ++ back)) : o.ExposesAlong front := by
  induction front generalizing o with
  | nil => trivial
  | cons name rest ih =>
      rcases exposes with ⟨elements, exposed, further⟩
      exact ⟨elements, exposed, fun element member => ih (further element member)⟩

theorem ExposesAlong.append {front : List String} {o : Object} {name : String}
    (exposes : o.ExposesAlong front)
    (last : ∀ reached ∈ o.elementsAlong front, (reached.relation? name).isSome) :
    o.ExposesAlong (front ++ [name]) := by
  induction front generalizing o with
  | nil =>
      rcases Option.isSome_iff_exists.mp (last o List.mem_cons_self) with ⟨elements, exposed⟩
      exact ⟨elements, exposed, fun _ _ => trivial⟩
  | cons first rest ih =>
      rcases exposes with ⟨elements, exposed, further⟩
      rw [elementsAlong_cons exposed] at last
      refine ⟨elements, exposed, fun element member => ih (further element member) ?_⟩
      exact fun reached inside => last reached (List.mem_flatMap_of_mem member inside)

/-- It is enough that the walks along the beginnings of a chain lead to objects that expose the
next name. -/
theorem exposesAlong_of_walks {chain : List String} {o : Object}
    (exposes : ∀ before name after, chain = before ++ name :: after → ∀ reached,
      .ok (.object reached) ∈ (Walker.start o before).toList → (reached.relation? name).isSome) :
    o.ExposesAlong chain := by
  -- From the end: a walk along a beginning yields all its objects once they expose its names.
  induction chain using List.reverseRecOn with
  | nil => trivial
  | append_singleton front last ih =>
      have begins : o.ExposesAlong front := by
        apply ih
        intro before name after same
        exact exposes before name (after ++ [last]) (by simp [same])
      apply begins.append
      intro reached member
      apply exposes front last [] rfl
      rw [begins.toList_start]
      exact List.mem_map_of_mem member

theorem step?_toValue {o : Object} {name : String} {elements : List Object}
    (exposed : o.relation? name = some elements) :
    o.toValue.step? (.key name) = some (.list (elements.map toValue)) := by
  have found : Fields.get? o.attrs name = some (.relation elements) := attr?_eq_of_relation? exposed
  rw [toValue_eq, Value.step?, Fields.get?_map, found, Option.map_some, Attr.toValue,
    elementsToItems_eq]

end Object

/-! ### The schema of an object -/

namespace Object

theorem get?_infer_toValue {o : Object} {name : String} {elements : List Object}
    (exposed : o.relation? name = some elements) :
    (Schema.infer o.toValue).get? name =
      some (.list ((elements.map fun element => Schema.infer element.toValue).foldl Schema.union
        .scalar)) := by
  have found : Fields.get? o.attrs name = some (.relation elements) := attr?_eq_of_relation? exposed
  rw [toValue_eq, Schema.infer_map, Schema.get?, Fields.get?_map, Fields.get?_map, found,
    Option.map_some, Option.map_some, Attr.toValue, elementsToItems_eq, Schema.infer_list,
    List.map_map]
  rfl

theorem keysDistinct_infer_elements {o : Object} {name : String} {elements : List Object}
    (distinct : o.NamesDistinct) (exposed : o.relation? name = some elements) :
    ∀ schema ∈ elements.map fun element => Schema.infer element.toValue, schema.KeysDistinct := by
  rw [List.forall_mem_map]
  exact fun element member => Schema.keysDistinct_infer
    (element.keysDistinct_toValue (namesDistinct_of_relation? distinct exposed member))

theorem fits_infer_elements {elements : List Object} {chain : List String}
    (each : ∀ element ∈ elements, (Schema.infer element.toValue).Fits chain) :
    ∀ schema ∈ .scalar :: elements.map fun element => Schema.infer element.toValue,
      schema.Fits chain := by
  rw [List.forall_mem_cons, List.forall_mem_map]
  exact ⟨Schema.fits_scalar chain, each⟩

theorem ExposesAlong.fits {chain : List String} {o : Object} (distinct : o.NamesDistinct)
    (exposes : o.ExposesAlong chain) : (Schema.infer o.toValue).Fits chain := by
  induction chain generalizing o with
  | nil => trivial
  | cons name rest ih =>
      rcases exposes with ⟨elements, exposed, further⟩
      have all := fits_infer_elements fun element member =>
        ih (namesDistinct_of_relation? distinct exposed member) (further element member)
      exact Or.inr ⟨_, get?_infer_toValue exposed,
        (Schema.fits_foldl_union (keysDistinct_infer_elements distinct exposed) all).1⟩

/-- The schema of an object opens a chain of relations if there is something to go on from at the
last of them. -/
theorem ExposesAlong.opens {front : List String} {last : String} {o : Object}
    (distinct : o.NamesDistinct) (exposes : o.ExposesAlong (front ++ [last]))
    (inhabited : o.elementsAlong front ≠ []) :
    (Schema.infer o.toValue).Opens (front ++ [last]) := by
  induction front generalizing o with
  | nil =>
      rcases exposes with ⟨elements, exposed, _⟩
      exact ⟨_, get?_infer_toValue exposed, trivial⟩
  | cons name rest ih =>
      rcases exposes with ⟨elements, exposed, further⟩
      have distinctElement : ∀ element ∈ elements, element.NamesDistinct :=
        fun _ => namesDistinct_of_relation? distinct exposed
      rw [elementsAlong_cons exposed] at inhabited
      rcases List.exists_mem_of_ne_nil _ inhabited with ⟨reached, inside⟩
      rcases List.mem_flatMap.mp inside with ⟨element, member, fromElement⟩
      have all := fits_infer_elements fun other otherMem =>
        ExposesAlong.fits (distinctElement other otherMem) (further other otherMem)
      have opened := ih (distinctElement element member) (further element member)
        (List.ne_nil_of_mem fromElement)
      exact ⟨_, get?_infer_toValue exposed,
        (Schema.fits_foldl_union (keysDistinct_infer_elements distinct exposed) all).2
          ⟨_, List.mem_cons_of_mem _ (List.mem_map_of_mem member), opened⟩⟩

end Object

/-! ### The places that a chain covers -/

namespace Path

section

variable {α : Type} (items : List α) (first : α → Segment) (below : α → List Path)

theorem filter_covers_nil :
    (items.flatMap fun item => (below item).map (first item :: ·)).filter (covers []) = [] := by
  rw [List.filter_eq_nil_iff]
  intro path member
  rcases List.mem_flatMap.mp member with ⟨item, _, inBelow⟩
  rcases List.mem_map.mp inBelow with ⟨rest, _, rfl⟩
  exact Bool.false_ne_true

theorem filter_covers_cons (segment : Segment) (rest : Path) :
    (items.flatMap fun item => (below item).map (first item :: ·)).filter (covers (segment :: rest)) =
      items.flatMap fun item =>
        if segment.covers (first item) then
          ((below item).filter rest.covers).map (first item :: ·)
        else [] := by
  rw [List.filter_flatMap]
  apply List.flatMap_congr
  intro item _
  rw [List.filter_map]
  have step : covers (segment :: rest) ∘ (first item :: ·) =
      fun path => segment.covers (first item) && rest.covers path :=
    rfl
  rw [step]
  cases segment.covers (first item) <;> simp

end

end Path

namespace Value

/-- The places of a value that are at the end of a chain of lists. -/
def placesAlong (value : Value) (chain : List String) : List Path :=
  value.places.filter (Path.throughElements chain).covers

theorem placesAlong_nil (value : Value) : value.placesAlong [] = [[]] := by
  have root : value.concretePaths.filter (Path.covers []) = [] := by
    cases value with
    | list items =>
        rw [concretePaths_list]
        exact Path.filter_covers_nil _ _ _
    | map fields =>
        rw [concretePaths_map]
        exact Path.filter_covers_nil _ _ _
    | _ => rfl
  change ([] :: value.concretePaths).filter (Path.covers []) = [[]]
  rw [List.filter_cons, root]
  rfl

theorem placesAlong_cons {fields : List (String × Value)} {items : List Value} {name : String}
    (distinct : Fields.Distinct fields) (found : Fields.get? fields name = some (.list items))
    (rest : List String) : (map fields).placesAlong (name :: rest) =
      items.zipIdx.flatMap fun item =>
        (item.1.placesAlong rest).map fun path => .key name :: .index item.2 :: path := by
  have inList : (list items).places.filter (Path.covers (.any :: Path.throughElements rest)) =
      items.zipIdx.flatMap fun item => (item.1.placesAlong rest).map (.index item.2 :: ·) := by
    rw [places, List.filter_cons_of_neg Bool.false_ne_true, concretePaths_list,
      Path.filter_covers_cons]
    rfl
  have inFields : ∀ entry : String × Value,
      (if (Segment.key name).covers (.key entry.1) then
        (entry.2.places.filter (Path.covers (.any :: Path.throughElements rest))).map
          (.key entry.1 :: ·)
      else []) =
      if entry.1 = name then
        (entry.2.places.filter (Path.covers (.any :: Path.throughElements rest))).map
          (.key name :: ·)
      else [] := by
    intro entry
    by_cases same : entry.1 = name
    · simp [same, Segment.covers]
    · simp [Segment.covers, same, Ne.symm same]
  rw [placesAlong, Path.throughElements_cons, places, List.filter_cons_of_neg Bool.false_ne_true,
    concretePaths_map, Path.filter_covers_cons]
  simp only [inFields]
  rw [Fields.flatMap_ite_eq_get? distinct name fun value =>
    (value.places.filter (Path.covers (.any :: Path.throughElements rest))).map (.key name :: ·)]
  rw [found, Option.map_some, Option.getD_some, inList, List.map_flatMap]
  simp only [List.map_map]
  rfl

theorem placesAlong_eq_filter_concretePaths {value : Value} {chain : List String}
    (more : chain ≠ []) : value.placesAlong chain =
      value.concretePaths.filter (Path.throughElements chain).covers := by
  rcases List.exists_cons_of_ne_nil more with ⟨name, rest, rfl⟩
  exact List.filter_cons_of_neg Bool.false_ne_true

theorem along?_key_index {value inner element : Value} {name : String} {position : Nat}
    (step : value.step? (.key name) = some inner) (next : inner.step? (.index position) = some element)
    (rest : Path) : value.along? (.key name :: .index position :: rest) =
      (element.along? rest).map ((name, element) :: ·) := by
  simp only [along?, step, next, Option.bind_eq_bind, Option.bind_some]
  cases element.along? rest <;> rfl

/-- A place that a chain covers begins with the first name and an index. -/
theorem exists_of_covers_cons {value node : Value} {name : String} {chain : List String} {path : Path}
    (covered : (Path.throughElements (name :: chain)).covers path)
    (held : value.get? path = some node) :
    ∃ position rest inner element, path = .key name :: .index position :: rest ∧
      (Path.throughElements chain).covers rest ∧ value.step? (.key name) = some inner ∧
      inner.step? (.index position) = some element ∧ element.get? rest = some node := by
  rw [Path.throughElements_cons] at covered
  rcases path with _ | ⟨first, _ | ⟨second, rest⟩⟩
  · cases covered
  · simp [Path.covers] at covered
  · simp only [Path.covers, Bool.and_eq_true] at covered
    rcases covered with ⟨atFirst, atSecond, further⟩
    rcases get?_cons_eq_some_iff.mp held with ⟨inner, step, heldInner⟩
    rcases get?_cons_eq_some_iff.mp heldInner with ⟨element, next, heldElement⟩
    cases Segment.covers_key_iff.mp atFirst
    cases second with
    | key other => simp [Segment.covers] at atSecond
    | index position => exact ⟨position, rest, inner, element, rfl, further, step, next, heldElement⟩
    | any => cases inner <;> cases next

/-- The row of a place at the end of a chain has at the last name what is at that place. -/
theorem exists_along?_eq {value node : Value} {front : List String} {last : String} {path : Path}
    (covered : (Path.throughElements (front ++ [last])).covers path)
    (held : value.get? path = some node) :
    ∃ entries, value.along? path = some (entries ++ [(last, node)]) := by
  induction front generalizing value path with
  | nil =>
      rcases exists_of_covers_cons covered held with
        ⟨position, rest, inner, element, rfl, ended, step, next, heldElement⟩
      rcases rest with _ | ⟨segment, more⟩
      · cases heldElement
        exact ⟨[], along?_key_index step next []⟩
      · cases ended
  | cons name more ih =>
      rcases exists_of_covers_cons covered held with
        ⟨position, rest, inner, element, rfl, further, step, next, heldElement⟩
      rcases ih further heldElement with ⟨entries, same⟩
      refine ⟨(name, element) :: entries, ?_⟩
      rw [along?_key_index step next, same]
      rfl

theorem map_get?_row? {value node : Value} {front : List String} {last : String} {path : Path}
    (covered : (Path.throughElements (front ++ [last])).covers path)
    (held : value.get? path = some node) :
    (value.row? path).map (Fields.get? · last) = some (some node) := by
  rcases exists_along?_eq covered held with ⟨entries, same⟩
  rw [row?, same, Option.map_some, Option.map_some, Fields.ofList, List.foldl_append]
  exact congrArg some (Fields.get?_insert_self _ last node)

end Value

namespace Object

/-- The places that a chain of relations covers are those of the elements at its end. -/
theorem ExposesAlong.map_get?_placesAlong {chain : List String} {o : Object}
    (distinct : o.NamesDistinct) (exposes : o.ExposesAlong chain) :
    (o.toValue.placesAlong chain).map o.toValue.get? =
      (o.elementsAlong chain).map fun element => some element.toValue := by
  induction chain generalizing o with
  | nil => rw [Value.placesAlong_nil, List.map_singleton, Value.get?_nil, elementsAlong,
      List.map_singleton]
  | cons name rest ih =>
      rcases exposes with ⟨elements, exposed, further⟩
      have step := step?_toValue exposed
      have places : o.toValue.placesAlong (name :: rest) =
          (elements.map toValue).zipIdx.flatMap fun item =>
            (item.1.placesAlong rest).map fun path => .key name :: .index item.2 :: path := by
        have keysDistinct := o.keysDistinct_toValue distinct
        rw [toValue_eq] at step keysDistinct ⊢
        exact Value.placesAlong_cons (Value.keysDistinct_map_iff.mp keysDistinct).1 step rest
      have each : ∀ item ∈ (elements.map toValue).zipIdx,
          ((item.1.placesAlong rest).map fun path => .key name :: .index item.2 :: path).map
            o.toValue.get? = (item.1.placesAlong rest).map item.1.get? := by
        intro item member
        have next : (Value.list (elements.map toValue)).step? (.index item.2) = some item.1 :=
          List.mem_zipIdx_iff_getElem?.mp member
        rw [List.map_map]
        apply List.map_congr_left
        intro path _
        rw [Function.comp_apply, Value.get?_cons, step, Option.bind_some, Value.get?_cons, next,
          Option.bind_some]
      have nodes : ∀ element ∈ elements,
          (element.toValue.placesAlong rest).map element.toValue.get? =
            (element.elementsAlong rest).map fun reached => some reached.toValue :=
        fun element member =>
          ih (namesDistinct_of_relation? distinct exposed member) (further element member)
      calc (o.toValue.placesAlong (name :: rest)).map o.toValue.get?
          = (elements.map toValue).zipIdx.flatMap fun item =>
              (item.1.placesAlong rest).map item.1.get? := by
            rw [places, List.map_flatMap, List.flatMap_congr each]
        _ = ((elements.map toValue).zipIdx.map Prod.fst).flatMap fun value =>
              (value.placesAlong rest).map value.get? := by
            rw [List.flatMap_map]
        _ = elements.flatMap fun element =>
              (element.toValue.placesAlong rest).map element.toValue.get? := by
            rw [List.zipIdx_map_fst, List.flatMap_map]
        _ = (o.elementsAlong (name :: rest)).map fun element => some element.toValue := by
            rw [List.flatMap_congr nodes, elementsAlong_cons exposed, List.map_flatMap]

end Object

/-- A walk along a chain of relations, on which some object exposes the last of them, yields objects
only.  The rows of the chain in the tree of the root are as many, and have under the last name the
values of these objects in the same order. -/
theorem Tree.branches_ofKeys_eq_walk {o : Object} {front : List String} {last : String}
    (distinct : o.NamesDistinct)
    (exposes : ∀ before name after, front ++ [last] = before ++ name :: after → ∀ reached,
      .ok (.object reached) ∈ (Walker.start o before).toList → (reached.relation? name).isSome)
    (inhabited : ∃ reached, .ok (.object reached) ∈ (Walker.start o front).toList) :
    ∃ (elements : List Object) (rows : List (Fields Value)),
      (Walker.start o (front ++ [last])).toList =
        elements.map (fun element => .ok (.object element)) ∧
      (Tree.ofValue o.toValue).branches (Path.ofKeys (front ++ [last])) = .ok rows ∧
      rows.map (Fields.get? · last) = elements.map fun element => some element.toValue := by
  have along : o.ExposesAlong (front ++ [last]) := Object.exposesAlong_of_walks exposes
  have onTheWay : o.elementsAlong front ≠ [] := by
    rcases inhabited with ⟨reached, member⟩
    rw [along.of_append.toList_start] at member
    rcases List.mem_map.mp member with ⟨element, inside, _⟩
    exact List.ne_nil_of_mem inside
  have canonical := Schema.canonicalize_ofKeys (along.opens distinct onTheWay) (by simp)
  have rows := Value.map_some_branches (o.keysDistinct_toValue distinct)
    (Path.throughElements (front ++ [last]))
  rw [← Value.placesAlong_eq_filter_concretePaths (by simp)] at rows
  have atLast : ∀ path ∈ o.toValue.placesAlong (front ++ [last]),
      (o.toValue.row? path).map (Fields.get? · last) = some (o.toValue.get? path) := by
    intro path member
    rcases List.mem_filter.mp member with ⟨place, covered⟩
    rcases (Value.mem_places_iff (o.keysDistinct_toValue distinct)).mp place with ⟨node, held⟩
    rw [held]
    exact Value.map_get?_row? covered held
  refine ⟨o.elementsAlong (front ++ [last]),
    o.toValue.branches (Path.throughElements (front ++ [last])), along.toList_start, ?_, ?_⟩
  · rw [branches, canonicalize, ofValue, canonical]
    rfl
  · apply (List.map_inj_right fun _ _ => Option.some.inj).mp
    calc ((o.toValue.branches (Path.throughElements (front ++ [last]))).map
            (Fields.get? · last)).map some
        = ((o.toValue.branches (Path.throughElements (front ++ [last]))).map some).map
            (Option.map (Fields.get? · last)) := by
          rw [List.map_map, List.map_map]
          rfl
      _ = (o.toValue.placesAlong (front ++ [last])).map fun path =>
            (o.toValue.row? path).map (Fields.get? · last) := by
          rw [rows, List.map_map]
          rfl
      _ = ((o.toValue.placesAlong (front ++ [last])).map o.toValue.get?).map some := by
          rw [List.map_congr_left atLast, List.map_map]
          rfl
      _ = _ := by
          rw [along.map_get?_placesAlong distinct]

/-- Items with items of their own: the first has none, and one of the second has no further. -/
def itemsOfItems : Object :=
  .mk [("items", .relation [.mk [("items", .relation [])],
    .mk [("label", .value (.string "b")),
      ("items", .relation [.mk [], .mk [("items", .value .none)]])]])]

theorem namesDistinct_itemsOfItems : itemsOfItems.NamesDistinct := by
  simp [itemsOfItems, Object.NamesDistinct, Object.AttrsNamesDistinct, Object.ElementsNamesDistinct,
    Attr.NamesDistinct, Value.KeysDistinct, Fields.Distinct, Fields.keys]

/-- A chain that repeats a name. -/
theorem branches_itemsOfItems : ∃ rows,
    (Tree.ofValue itemsOfItems.toValue).branches (Path.ofKeys ["items", "items"]) = .ok rows ∧
      rows.map (Fields.get? · "items") = [some (.map []), some (.map [("items", .none)])] := by
  have walk : ∀ chain, (Walker.start itemsOfItems chain).toList =
      cutAfterError (itemsOfItems.reach chain) :=
    Walker.toList_start itemsOfItems
  have exposes : ∀ before name after, ["items"] ++ ["items"] = before ++ name :: after →
      ∀ reached, .ok (.object reached) ∈ (Walker.start itemsOfItems before).toList →
        (reached.relation? name).isSome := by
    intro before name after same reached member
    rw [walk] at member
    rcases before with _ | ⟨first, _ | ⟨second, more⟩⟩
    · simp only [List.cons_append, List.nil_append, List.cons.injEq] at same
      rcases same with ⟨rfl, _⟩
      simp only [Object.reach, cutAfterError, List.mem_singleton, Except.ok.injEq,
        Node.object.injEq] at member
      subst member
      rfl
    · simp only [List.cons_append, List.nil_append, List.cons.injEq] at same
      rcases same with ⟨rfl, rfl, _⟩
      simp [itemsOfItems, Object.reach, Object.attr?, Object.attrs, Fields.get?,
        cutAfterError] at member
      rcases member with rfl | rfl <;> rfl
    · simp at same
  have inhabited : ∃ reached, .ok (.object reached) ∈ (Walker.start itemsOfItems ["items"]).toList := by
    rw [walk]
    exact ⟨_, List.mem_cons_self⟩
  rcases Tree.branches_ofKeys_eq_walk namesDistinct_itemsOfItems exposes inhabited with
    ⟨elements, rows, walked, made, same⟩
  refine ⟨rows, made, same.trans ?_⟩
  rw [walk] at walked
  have reached : [.mk [], .mk [("items", .value .none)]].map
      (fun element => (.ok (.object element) : Except Fault Node)) =
        elements.map fun element => .ok (.object element) := walked
  rw [← (List.map_inj_right fun _ _ equal => Node.object.inj (Except.ok.inj equal)).mp reached]
  rfl

end GraphTemplate
