import GraphTemplate.Object

/-!
# Objects from values and back

Every map makes an object, and the object becomes the same map again: no entry is lost, moved or
changed.  The other way round the value keeps no note of how an attribute held its data, so that a
plain value that could be an object or a relation comes back as one.  Objects without such attributes
are normal: the object that a map makes is normal, and a normal object is the one that its own value
makes.

Nothing fails on the way.  `Object.convert?` converts one value after the other and could fail at each
of them, and it agrees with `Object.ofValue?`.
-/

namespace GraphTemplate

/-- Neither a map nor a list of nothing but maps. -/
def Value.isPlain : Value → Bool
  | map _ => false
  | list items => !items.all isMap
  | _ => true

mutual

/-- No plain value attribute below is a map or a list of nothing but maps. -/
def Attr.Normal : Attr → Prop
  | .value content => content.isPlain
  | .object o => o.Normal
  | .relation elements => Object.ElementsNormal elements

/-- No plain value attribute in the graph is a map or a list of nothing but maps. -/
def Object.Normal : Object → Prop
  | .mk attrs => Object.AttrsNormal attrs

def Object.ElementsNormal : List Object → Prop
  | [] => True
  | element :: rest => element.Normal ∧ Object.ElementsNormal rest

def Object.AttrsNormal : List (String × Attr) → Prop
  | [] => True
  | (_, attr) :: rest => attr.Normal ∧ Object.AttrsNormal rest

end

mutual

/-- The attribute that a value makes, with the failures of everything below it passed on. -/
def Attr.convert? : Value → Except Fault Attr
  | .map fields => do return .object (.mk (← Object.convertEntries? fields))
  | .list items =>
      if items.all Value.isMap then do return .relation (← Object.convertItems? items)
      else .ok (.value (.list items))
  | content => .ok (.value content)

/-- The object that a value makes, with the failures of everything below it passed on. -/
def Object.convert? : Value → Except Fault Object
  | .map fields => do return .mk (← Object.convertEntries? fields)
  | content => .error (.notAnObject content.kind)

def Object.convertItems? : List Value → Except Fault (List Object)
  | [] => .ok []
  | item :: rest => do
      let element ← Object.convert? item
      return element :: (← Object.convertItems? rest)

def Object.convertEntries? : List (String × Value) → Except Fault (List (String × Attr))
  | [] => .ok []
  | (name, content) :: rest => do
      let attr ← Attr.convert? content
      return (name, attr) :: (← Object.convertEntries? rest)

end

/-! ### From values -/

theorem Object.isSome_elementsOfItems? (items : List Value) :
    (elementsOfItems? items).isSome = items.all Value.isMap := by
  induction items with
  | nil => simp [elementsOfItems?]
  | cons item rest ih => cases item <;> simp [elementsOfItems?, Value.isMap, ih]

theorem Object.elementsOfItems?_eq_none_iff {items : List Value} :
    elementsOfItems? items = none ↔ items.all Value.isMap = false := by
  rw [← isSome_elementsOfItems?, Option.isSome_eq_false_iff, Option.isNone_iff_eq_none]

theorem Object.all_isMap_of_elementsOfItems? {items : List Value} {elements : List Object}
    (made : elementsOfItems? items = some elements) : items.all Value.isMap = true := by
  rw [← isSome_elementsOfItems?, made, Option.isSome_some]

theorem Attr.ofValue_of_isPlain {content : Value} (plain : content.isPlain) :
    ofValue content = .value content := by
  cases content with
  | list items =>
      have mixed : Object.elementsOfItems? items = none := by
        apply Object.elementsOfItems?_eq_none_iff.mpr
        simpa [Value.isPlain] using plain
      simp [ofValue, mixed]
  | map fields => cases plain
  | _ => simp [ofValue]

mutual

/-- The value of the attribute that a value makes is that value. -/
theorem Attr.toValue_ofValue : ∀ content : Value, (Attr.ofValue content).toValue = content
  | .map fields => by
      simp only [Attr.ofValue, Attr.toValue, Object.toValue,
        Object.attrsToEntries_attrsOfEntries fields]
  | .list items => by
      cases made : Object.elementsOfItems? items with
      | none => simp only [Attr.ofValue, made, Attr.toValue]
      | some elements =>
          simp only [Attr.ofValue, made, Attr.toValue,
            Object.elementsToItems_of_elementsOfItems? made]
  | .none | .bool _ | .integer _ | .float _ | .string _ => by
      simp only [Attr.ofValue, Attr.toValue]

theorem Object.elementsToItems_of_elementsOfItems? :
    ∀ {items : List Value} {elements : List Object},
      Object.elementsOfItems? items = some elements → Object.elementsToItems elements = items
  | [], _, made => by
      simp only [Object.elementsOfItems?, Option.some.injEq] at made
      simp only [← made, Object.elementsToItems]
  | .map fields :: rest, _, made => by
      simp only [Object.elementsOfItems?, Option.map_eq_some_iff] at made
      rcases made with ⟨others, later, rfl⟩
      simp only [Object.elementsToItems, Object.toValue,
        Object.attrsToEntries_attrsOfEntries fields,
        Object.elementsToItems_of_elementsOfItems? later]

theorem Object.attrsToEntries_attrsOfEntries :
    ∀ entries : List (String × Value),
      Object.attrsToEntries (Object.attrsOfEntries entries) = entries
  | [] => by
      simp only [Object.attrsOfEntries, Object.attrsToEntries]
  | (name, content) :: rest => by
      simp only [Object.attrsOfEntries, Object.attrsToEntries, Attr.toValue_ofValue content,
        Object.attrsToEntries_attrsOfEntries rest]

end

mutual

/-- The attribute that a value makes is normal. -/
theorem Attr.normal_ofValue : ∀ content : Value, (Attr.ofValue content).Normal
  | .map fields => by
      simp only [Attr.ofValue, Attr.Normal, Object.Normal]
      exact Object.attrsNormal_attrsOfEntries fields
  | .list items => by
      cases made : Object.elementsOfItems? items with
      | none =>
          have mixed := Object.elementsOfItems?_eq_none_iff.mp made
          simp only [Attr.ofValue, made, Attr.Normal, Value.isPlain, mixed, Bool.not_false]
      | some elements =>
          simp only [Attr.ofValue, made, Attr.Normal]
          exact Object.elementsNormal_of_elementsOfItems? made
  | .none | .bool _ | .integer _ | .float _ | .string _ => by
      simp only [Attr.ofValue, Attr.Normal, Value.isPlain]

theorem Object.elementsNormal_of_elementsOfItems? :
    ∀ {items : List Value} {elements : List Object},
      Object.elementsOfItems? items = some elements → Object.ElementsNormal elements
  | [], _, made => by
      simp only [Object.elementsOfItems?, Option.some.injEq] at made
      simp only [← made, Object.ElementsNormal]
  | .map fields :: rest, _, made => by
      simp only [Object.elementsOfItems?, Option.map_eq_some_iff] at made
      rcases made with ⟨others, later, rfl⟩
      simp only [Object.ElementsNormal, Object.Normal]
      exact ⟨Object.attrsNormal_attrsOfEntries fields,
        Object.elementsNormal_of_elementsOfItems? later⟩

theorem Object.attrsNormal_attrsOfEntries :
    ∀ entries : List (String × Value), Object.AttrsNormal (Object.attrsOfEntries entries)
  | [] => by
      simp only [Object.attrsOfEntries, Object.AttrsNormal]
  | (name, content) :: rest => by
      simp only [Object.attrsOfEntries, Object.AttrsNormal]
      exact ⟨Attr.normal_ofValue content, Object.attrsNormal_attrsOfEntries rest⟩

end

mutual

/-- No conversion inside an attribute fails. -/
theorem Attr.convert?_eq_ok : ∀ content : Value, Attr.convert? content = .ok (Attr.ofValue content)
  | .map fields => by
      simp only [Attr.convert?, Object.convertEntries?_eq_ok fields, Attr.ofValue]
      rfl
  | .list items => by
      cases made : Object.elementsOfItems? items with
      | none =>
          have mixed := Object.elementsOfItems?_eq_none_iff.mp made
          simp only [Attr.convert?, mixed, Attr.ofValue, made]
          rfl
      | some elements =>
          have onlyMaps := Object.all_isMap_of_elementsOfItems? made
          simp only [Attr.convert?, onlyMaps, Attr.ofValue, made, if_true,
            Object.convertItems?_eq_ok made]
          rfl
  | .none | .bool _ | .integer _ | .float _ | .string _ => by
      simp only [Attr.convert?, Attr.ofValue]

theorem Object.convertItems?_eq_ok :
    ∀ {items : List Value} {elements : List Object},
      Object.elementsOfItems? items = some elements → Object.convertItems? items = .ok elements
  | [], _, made => by
      simp only [Object.elementsOfItems?, Option.some.injEq] at made
      simp only [← made, Object.convertItems?]
  | .map fields :: rest, _, made => by
      simp only [Object.elementsOfItems?, Option.map_eq_some_iff] at made
      rcases made with ⟨others, later, rfl⟩
      simp only [Object.convertItems?, Object.convert?, Object.convertEntries?_eq_ok fields,
        Object.convertItems?_eq_ok later]
      rfl

theorem Object.convertEntries?_eq_ok :
    ∀ entries : List (String × Value),
      Object.convertEntries? entries = .ok (Object.attrsOfEntries entries)
  | [] => by
      simp only [Object.convertEntries?, Object.attrsOfEntries]
  | (name, content) :: rest => by
      simp only [Object.convertEntries?, Object.attrsOfEntries, Attr.convert?_eq_ok content,
        Object.convertEntries?_eq_ok rest]
      rfl

end

theorem Object.convert?_eq_ofValue? (value : Value) : Object.convert? value = Object.ofValue? value := by
  cases value with
  | map fields =>
      simp only [convert?, ofValue?, convertEntries?_eq_ok fields]
      rfl
  | _ => simp only [convert?, ofValue?]

/-! ### From objects -/

mutual

/-- The value of a normal attribute makes that attribute. -/
theorem Attr.ofValue_toValue : ∀ {attr : Attr}, attr.Normal → Attr.ofValue attr.toValue = attr
  | .value content, normal => by
      simp only [Attr.Normal] at normal
      simp only [Attr.toValue, Attr.ofValue_of_isPlain normal]
  | .object (.mk attrs), normal => by
      simp only [Attr.Normal, Object.Normal] at normal
      simp only [Attr.toValue, Object.toValue, Attr.ofValue,
        Object.attrsOfEntries_attrsToEntries normal]
  | .relation elements, normal => by
      simp only [Attr.Normal] at normal
      simp only [Attr.toValue, Attr.ofValue, Object.elementsOfItems?_elementsToItems normal]

theorem Object.elementsOfItems?_elementsToItems :
    ∀ {elements : List Object}, Object.ElementsNormal elements →
      Object.elementsOfItems? (Object.elementsToItems elements) = some elements
  | [], _ => by
      simp only [Object.elementsToItems, Object.elementsOfItems?]
  | .mk attrs :: rest, normal => by
      simp only [Object.ElementsNormal, Object.Normal] at normal
      simp only [Object.elementsToItems, Object.toValue, Object.elementsOfItems?,
        Object.elementsOfItems?_elementsToItems normal.2,
        Object.attrsOfEntries_attrsToEntries normal.1, Option.map_some]

theorem Object.attrsOfEntries_attrsToEntries :
    ∀ {attrs : List (String × Attr)}, Object.AttrsNormal attrs →
      Object.attrsOfEntries (Object.attrsToEntries attrs) = attrs
  | [], _ => by
      simp only [Object.attrsToEntries, Object.attrsOfEntries]
  | (name, attr) :: rest, normal => by
      simp only [Object.AttrsNormal] at normal
      simp only [Object.attrsToEntries, Object.attrsOfEntries, Attr.ofValue_toValue normal.1,
        Object.attrsOfEntries_attrsToEntries normal.2]

end

namespace Object

theorem exists_ofValue?_map (fields : List (String × Value)) :
    ∃ o, Object.ofValue? (.map fields) = .ok o ∧ o.toValue = .map fields ∧ o.Normal := by
  refine ⟨mk (attrsOfEntries fields), rfl, ?_, ?_⟩
  · simp only [toValue, attrsToEntries_attrsOfEntries]
  · simp only [Normal]
    exact attrsNormal_attrsOfEntries fields

theorem ofValue?_toValue {o : Object} (normal : o.Normal) : Object.ofValue? o.toValue = .ok o := by
  rcases o with ⟨attrs⟩
  simp only [Normal] at normal
  simp only [toValue, ofValue?, attrsOfEntries_attrsToEntries normal]

theorem ofValue?_eq_error_iff {value : Value} {fault : Fault} :
    Object.ofValue? value = .error fault ↔ value.isMap = false ∧ fault = .notAnObject value.kind := by
  cases value <;> simp [ofValue?, Value.isMap, eq_comm]

/-- A value makes an object unless it is no map.  An attribute can be made of any value, so nothing
below a map can make its conversion fail.  The object that a map makes has that map as its value.
Every object has a value that makes an object again: a normal one with the same value, which is the
object itself if and only if that is normal. -/
theorem ofValue?_normalises :
    (∀ value : Value, Object.convert? value = Object.ofValue? value ∧
      Attr.convert? value = .ok (Attr.ofValue value) ∧
      ((∃ fault, Object.ofValue? value = .error fault) ↔ value.isMap = false) ∧
      ∀ fault, Object.ofValue? value = .error fault ↔
        value.isMap = false ∧ fault = .notAnObject value.kind ∧ fault.category = .data) ∧
    (∀ fields : List (String × Value), ∃ o, Object.ofValue? (.map fields) = .ok o ∧
      o.toValue = .map fields) ∧
    ∀ o : Object, ∃ normal : Object, Object.ofValue? o.toValue = .ok normal ∧ normal.Normal ∧
      normal.toValue = o.toValue ∧ (normal = o ↔ o.Normal) := by
  refine ⟨?_, ?_, ?_⟩
  · intro value
    refine ⟨convert?_eq_ofValue? value, Attr.convert?_eq_ok value, ?_, ?_⟩
    · simp [ofValue?_eq_error_iff]
    · intro fault
      rw [ofValue?_eq_error_iff]
      constructor
      · rintro ⟨noMap, rfl⟩
        exact ⟨noMap, rfl, rfl⟩
      · rintro ⟨noMap, isFault, _⟩
        exact ⟨noMap, isFault⟩
  · intro fields
    rcases exists_ofValue?_map fields with ⟨o, made, same, _⟩
    exact ⟨o, made, same⟩
  · rintro ⟨attrs⟩
    rcases exists_ofValue?_map (attrsToEntries attrs) with ⟨normal, made, same, isNormal⟩
    refine ⟨normal, made, isNormal, same, ?_⟩
    constructor
    · rintro rfl
      exact isNormal
    · intro already
      have unchanged := ofValue?_toValue already
      rw [toValue, made] at unchanged
      exact Except.ok.inj unchanged

end Object

end GraphTemplate
