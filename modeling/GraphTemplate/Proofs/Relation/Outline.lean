import GraphTemplate.Proofs.Relation.Uniqueness

/-!
# Outlines

A search sees little of an object: the names of its attributes, which of them are relations, which of
these are empty, and the outlines of their first elements.  Candidates of the same outlines give the
same answers to a search, in whatever order they are listed.
-/

namespace GraphTemplate

/-- What a search sees of an object, attribute by attribute. -/
inductive Outline where
  | nil
  | single (name : String) (rest : Outline)
  | empty (name : String) (rest : Outline)
  | relation (name : String) (sample rest : Outline)
deriving DecidableEq

mutual

def Object.outline : Object → Outline
  | .mk attrs => Object.attrsOutline attrs

def Object.attrsOutline : List (String × Attr) → Outline
  | [] => .nil
  | (name, .relation []) :: rest => .empty name (Object.attrsOutline rest)
  | (name, .relation (first :: _)) :: rest =>
      .relation name first.outline (Object.attrsOutline rest)
  | (name, .value _) :: rest => .single name (Object.attrsOutline rest)
  | (name, .object _) :: rest => .single name (Object.attrsOutline rest)

end

namespace Outline

/-- Whether the first attribute of a name is a relation. -/
def exposes (relation : String) : Outline → Bool
  | nil => false
  | single name rest => if name = relation then false else rest.exposes relation
  | empty name rest => if name = relation then true else rest.exposes relation
  | .relation name _ rest => if name = relation then true else rest.exposes relation

/-- Whether the first attribute of a name is there and is none. -/
def offers (attr : String) : Outline → Bool
  | nil => false
  | single name rest => if name = attr then true else rest.offers attr
  | empty name rest => if name = attr then false else rest.offers attr
  | .relation name _ rest => if name = attr then false else rest.offers attr

/-- The outlines of the first elements of relations. -/
def samples : Outline → List (String × Outline)
  | nil => []
  | single _ rest => rest.samples
  | empty _ rest => rest.samples
  | .relation name sample rest => (name, sample) :: rest.samples

end Outline

/-- A candidate as a search sees it. -/
def outlined (candidate : String × Object) : String × Outline :=
  (candidate.1, candidate.2.outline)

namespace Object

theorem exposes_outline (relation : String) (o : Object) :
    o.outline.exposes relation = (o.relation? relation).isSome := by
  rcases o with ⟨attrs⟩
  simp only [outline, relation?, attr?, Object.attrs]
  induction attrs with
  | nil => rfl
  | cons entry rest ih =>
      rcases entry with ⟨name, content | content | (_ | ⟨first, others⟩)⟩ <;>
        by_cases same : name = relation <;>
        simp [attrsOutline, Outline.exposes, Fields.get?, same, ih]

theorem offers_outline (name : String) (o : Object) :
    o.outline.offers name = (o.attr? name).any Attr.isSingle := by
  rcases o with ⟨attrs⟩
  simp only [outline, attr?, Object.attrs]
  induction attrs with
  | nil => rfl
  | cons entry rest ih =>
      rcases entry with ⟨first, content | content | (_ | ⟨element, others⟩)⟩ <;>
        by_cases same : first = name <;>
        simp [attrsOutline, Outline.offers, Fields.get?, Attr.isSingle, same, ih]

theorem samples_outline (o : Object) : o.outline.samples = o.samples.map outlined := by
  rcases o with ⟨attrs⟩
  simp only [outline, samples, relations, Object.attrs]
  induction attrs with
  | nil => rfl
  | cons entry rest ih =>
      rcases entry with ⟨name, content | content | (_ | ⟨first, others⟩)⟩ <;>
        simp only [attrsOutline, Outline.samples, List.filterMap_cons, List.head?_nil,
          List.head?_cons, Option.map_none, Option.map_some, List.map_cons, outlined, ih]

end Object

theorem isSome_relation?_eq {o other : Object} (same : o.outline = other.outline)
    (relation : String) : (o.relation? relation).isSome = (other.relation? relation).isSome := by
  rw [← Object.exposes_outline, ← Object.exposes_outline, same]

theorem relation?_eq_none_iff {o other : Object} (same : o.outline = other.outline)
    (relation : String) : o.relation? relation = none ↔ other.relation? relation = none := by
  have exposed := isSome_relation?_eq same relation
  rw [← Option.not_isSome_iff_eq_none, ← Option.not_isSome_iff_eq_none, exposed]

theorem exists_counterpart {candidates others : List (String × Object)} {position : Nat}
    {name : String} {object : Object} (same : candidates.map outlined = others.map outlined)
    (found : candidates[position]? = some (name, object)) :
    ∃ other, others[position]? = some (name, other) ∧ object.outline = other.outline := by
  have seen : (others.map outlined)[position]? = some (name, object.outline) := by
    rw [← same, List.getElem?_map, found]
    rfl
  rw [List.getElem?_map, Option.map_eq_some_iff] at seen
  rcases seen with ⟨⟨otherName, other⟩, otherFound, alike⟩
  simp only [outlined, Prod.mk.injEq] at alike
  exact ⟨other, by rw [otherFound, alike.1], alike.2.symm⟩

theorem Leads.of_outlined {relation : String} {candidates others : List (String × Object)}
    {positions : List Nat} {route : Route} (leads : Leads relation candidates positions route)
    (same : candidates.map outlined = others.map outlined) :
    Leads relation others positions route := by
  induction leads generalizing others with
  | direct found exposed =>
      rcases exists_counterpart same found with ⟨other, otherFound, alike⟩
      exact .direct otherFound (isSome_relation?_eq alike relation ▸ exposed)
  | through unexposed found onward ih =>
      rcases exists_counterpart same found with ⟨other, otherFound, alike⟩
      apply Leads.through _ otherFound
      · apply ih
        rw [← Object.samples_outline, ← Object.samples_outline, alike]
      · rintro ⟨name, object⟩ member
        rcases List.mem_iff_getElem?.mp member with ⟨position, at_⟩
        rcases exists_counterpart same.symm at_ with ⟨original, originalFound, originalAlike⟩
        apply (relation?_eq_none_iff originalAlike relation).mpr
        exact unexposed _ (List.mem_of_getElem? originalFound)

/-- Candidates of the same names, each name with the same outline. -/
structure SameOutlines (candidates others : Fields Object) : Prop where
  distinct : candidates.Distinct
  otherDistinct : others.Distinct
  forward : ∀ name object, (name, object) ∈ candidates →
    ∃ other, (name, other) ∈ others ∧ object.outline = other.outline
  backward : ∀ name other, (name, other) ∈ others →
    ∃ object, (name, object) ∈ candidates ∧ other.outline = object.outline

/-- The names of the candidates that offer an attribute which is no relation. -/
def offering (name : String) (candidates : List (String × Object)) : List String :=
  (candidates.filter fun candidate => (candidate.2.attr? name).any Attr.isSingle).map Prod.fst

theorem nodup_offering {name : String} {candidates : Fields Object}
    (distinct : candidates.Distinct) : (offering name candidates).Nodup :=
  distinct.sublist (List.filter_sublist.map Prod.fst)

theorem findAttribute?_eq_ok_iff {candidates : List (String × Object)} {name : String}
    {answer : Option Route} :
    findAttribute? candidates name = .ok answer ↔
      offering name candidates = [] ∧ answer = none ∨
      ∃ owner, offering name candidates = [owner] ∧ answer = some ⟨owner, [name]⟩ := by
  unfold findAttribute?
  rw [← offering]
  rcases offering name candidates with _ | ⟨owner, _ | ⟨second, more⟩⟩ <;> simp [eq_comm]

namespace SameOutlines

variable {candidates others : Fields Object}

theorem symm (same : SameOutlines candidates others) : SameOutlines others candidates :=
  ⟨same.otherDistinct, same.distinct, same.backward, same.forward⟩

theorem exists_leads (same : SameOutlines candidates others) {relation : String}
    {positions : List Nat} {route : Route} (leads : Leads relation candidates positions route) :
    ∃ position otherPosition name object other further, positions = position :: further ∧
      candidates[position]? = some (name, object) ∧ others[otherPosition]? = some (name, other) ∧
      Leads relation others (otherPosition :: further) route := by
  have unexposedBack : (∀ candidate ∈ candidates, candidate.2.relation? relation = none) →
      ∀ candidate ∈ others, candidate.2.relation? relation = none := by
    rintro unexposed ⟨name, other⟩ member
    rcases same.backward name other member with ⟨object, objectMem, alike⟩
    exact (relation?_eq_none_iff alike relation).mpr (unexposed _ objectMem)
  cases leads with
  | direct found exposed =>
      rcases same.forward _ _ (List.mem_of_getElem? found) with ⟨other, otherMem, alike⟩
      rcases List.mem_iff_getElem?.mp otherMem with ⟨otherPosition, otherFound⟩
      exact ⟨_, otherPosition, _, _, other, [], rfl, found, otherFound,
        .direct otherFound (isSome_relation?_eq alike relation ▸ exposed)⟩
  | through unexposed found onward =>
      rcases same.forward _ _ (List.mem_of_getElem? found) with ⟨other, otherMem, alike⟩
      rcases List.mem_iff_getElem?.mp otherMem with ⟨otherPosition, otherFound⟩
      refine ⟨_, otherPosition, _, _, other, _, rfl, found, otherFound,
        .through (unexposedBack unexposed) otherFound (onward.of_outlined ?_)⟩
      rw [← Object.samples_outline, ← Object.samples_outline, alike]

theorem position_eq {fields : Fields Object} (distinct : fields.Distinct) {position other : Nat}
    {name : String} {object otherObject : Object} (found : fields[position]? = some (name, object))
    (otherFound : fields[other]? = some (name, otherObject)) : position = other := by
  have nameAt : fields.keys[position]? = some name := by
    rw [Fields.keys, List.getElem?_map, found]
    rfl
  have otherAt : fields.keys[other]? = some name := by
    rw [Fields.keys, List.getElem?_map, otherFound]
    rfl
  rcases List.getElem?_eq_some_iff.mp nameAt with ⟨inside, _⟩
  exact (List.getElem?_inj inside distinct).mp (nameAt.trans otherAt.symm)

theorem leadsOnly (same : SameOutlines candidates others) {relation : String} {route : Route}
    (only : LeadsOnly relation candidates route) : LeadsOnly relation others route := by
  rcases only with ⟨positions, leads, unique⟩
  rcases same.exists_leads leads with
    ⟨position, otherPosition, name, object, other, further, rfl, found, otherFound, otherLeads⟩
  refine ⟨_, otherLeads, ?_⟩
  intro positions second secondLeads
  rcases same.symm.exists_leads secondLeads with
    ⟨back, forth, backName, backOther, backObject, backFurther, rfl, backFound, forthFound, backLeads⟩
  -- Both go through the same name, and names are distinct, so they go through the same candidate.
  rcases unique _ _ backLeads with ⟨samePositions, rfl⟩
  cases samePositions
  rw [found] at forthFound
  cases forthFound
  rw [position_eq same.otherDistinct backFound otherFound]
  exact ⟨rfl, rfl⟩

theorem findRelation? (same : SameOutlines candidates others) {name : String}
    {answer : Option Route} (found : findRelation? candidates name = .ok answer) :
    findRelation? others name = .ok answer := by
  rw [findRelation?_eq_searchLevel] at found ⊢
  cases answer with
  | none =>
      rw [searchLevel_eq_none_iff] at found ⊢
      intro positions route leads
      rcases same.symm.exists_leads leads with ⟨_, _, _, _, _, _, _, _, _, back⟩
      exact found _ _ back
  | some route =>
      rw [searchLevel_eq_some_iff] at found ⊢
      exact same.leadsOnly found

theorem single {o other : Object} (name : String) (alike : o.outline = other.outline) :
    SameOutlines [(name, o)] [(name, other)] := by
  constructor
  · exact List.nodup_singleton _
  · exact List.nodup_singleton _
  · intro key object member
    cases List.mem_singleton.mp member
    exact ⟨other, List.mem_singleton_self _, alike⟩
  · intro key object member
    cases List.mem_singleton.mp member
    exact ⟨o, List.mem_singleton_self _, alike.symm⟩

theorem mem_offering (same : SameOutlines candidates others) {name owner : String}
    (member : owner ∈ offering name candidates) : owner ∈ offering name others := by
  rcases List.mem_map.mp member with ⟨⟨_, object⟩, objectMem, rfl⟩
  rcases List.mem_filter.mp objectMem with ⟨objectMem, offers⟩
  rcases same.forward _ _ objectMem with ⟨other, otherMem, alike⟩
  refine List.mem_map.mpr ⟨(_, other), List.mem_filter.mpr ⟨otherMem, ?_⟩, rfl⟩
  rw [← Object.offers_outline] at offers ⊢
  rw [← alike]
  exact offers

theorem perm_offering (same : SameOutlines candidates others) (name : String) :
    (offering name candidates).Perm (offering name others) := by
  rw [List.perm_ext_iff_of_nodup (nodup_offering same.distinct) (nodup_offering same.otherDistinct)]
  exact fun owner => ⟨same.mem_offering, same.symm.mem_offering⟩

theorem findAttribute? (same : SameOutlines candidates others) {name : String}
    {answer : Option Route} (found : findAttribute? candidates name = .ok answer) :
    findAttribute? others name = .ok answer := by
  have perm := same.perm_offering name
  rw [findAttribute?_eq_ok_iff] at found ⊢
  rcases found with ⟨none, rfl⟩ | ⟨owner, only, rfl⟩
  · rw [none, List.nil_perm] at perm
    exact Or.inl ⟨perm, rfl⟩
  · rw [only, List.singleton_perm] at perm
    exact Or.inr ⟨owner, perm.symm, rfl⟩

end SameOutlines

end GraphTemplate
