import GraphTemplate.Expansion
import GraphTemplate.Proofs.Relation.Elements
import GraphTemplate.Proofs.Relation.Outline
import Mathlib.Data.List.Forall2

/-!
# Likeness of objects

A likeness relates objects whose attributes of each name are alike: both are missing, or they are the
same value, related objects, or relations with related elements in the same order.  Everything that
is looked up by names then comes out alike: walks along a chain, paths of names, and the texts at
their ends.  A search for a relation finds the same in alike objects if these declare no name twice.
-/

namespace GraphTemplate

/-- Both results are values in one relation or faults in another. -/
inductive Tallies {ε ε' α β : Type} (faults : ε → ε' → Prop) (values : α → β → Prop) :
    Except ε α → Except ε' β → Prop where
  | ok {value : α} {other : β} (same : values value other) :
      Tallies faults values (.ok value) (.ok other)
  | error {fault : ε} {other : ε'} (same : faults fault other) :
      Tallies faults values (.error fault) (.error other)

namespace Tallies

variable {ε ε' φ φ' α β γ δ : Type} {faults : ε → ε' → Prop} {values : α → β → Prop}
  {result : Except ε α} {other : Except ε' β}

theorem mapError {otherFaults : φ → φ' → Prop} {f : ε → φ} {g : ε' → φ'}
    (tallies : Tallies faults values result other)
    (follows : ∀ fault otherFault, faults fault otherFault → otherFaults (f fault) (g otherFault)) :
    Tallies otherFaults values (result.mapError f) (other.mapError g) := by
  cases tallies with
  | ok same => exact .ok same
  | error same => exact .error (follows _ _ same)

theorem bind {nextValues : γ → δ → Prop} {next : α → Except ε γ} {otherNext : β → Except ε' δ}
    (tallies : Tallies faults values result other)
    (further : ∀ value otherValue, values value otherValue →
      Tallies faults nextValues (next value) (otherNext otherValue)) :
    Tallies faults nextValues (result >>= next) (other >>= otherNext) := by
  cases tallies with
  | ok same => exact further _ _ same
  | error same => exact .error same

theorem mono {weakerFaults : ε → ε' → Prop} {weaker : α → β → Prop}
    (tallies : Tallies faults values result other)
    (faultsFollow : ∀ fault otherFault, faults fault otherFault → weakerFaults fault otherFault)
    (follows : ∀ value otherValue, values value otherValue → weaker value otherValue) :
    Tallies weakerFaults weaker result other := by
  cases tallies with
  | ok same => exact .ok (follows _ _ same)
  | error same => exact .error (faultsFollow _ _ same)

/-- The values that tally are those that are given. -/
theorem given (tallies : Tallies faults values result other) :
    Tallies faults (fun value otherValue => result = .ok value ∧ values value otherValue) result
      other := by
  cases tallies with
  | ok same => exact .ok ⟨rfl, same⟩
  | error same => exact .error same

theorem allOrError {items : List (Except ε α)} {others : List (Except ε' β)}
    (each : List.Forall₂ (Tallies faults values) items others) :
    Tallies faults (List.Forall₂ values) (allOrError items) (allOrError others) := by
  induction each with
  | nil => exact .ok .nil
  | @cons _ _ rest otherRest first _ ih =>
      cases first with
      | error same => exact .error same
      | ok same =>
          simp only [GraphTemplate.allOrError]
          generalize GraphTemplate.allOrError rest = all, GraphTemplate.allOrError otherRest = otherAll
            at ih
          cases ih with
          | error failed => exact .error failed
          | ok later => exact .ok (.cons same later)

end Tallies

/-- Faults of one category, whatever names they mention. -/
def Fault.SameCategory (fault other : Fault) : Prop :=
  fault.category = other.category

/-- The attributes hold the same in the same way, where related objects count as the same. -/
inductive Attr.Alike (objects : Object → Object → Prop) : Attr → Attr → Prop where
  | value (content : Value) : Alike objects (.value content) (.value content)
  | object {o other : Object} (inner : objects o other) :
      Alike objects (.object o) (.object other)
  | relation {elements others : List Object} (each : List.Forall₂ objects elements others) :
      Alike objects (.relation elements) (.relation others)

inductive Node.Alike (objects : Object → Object → Prop) : Node → Node → Prop where
  | object {o other : Object} (same : objects o other) : Alike objects (.object o) (.object other)
  | value (content : Value) : Alike objects (.value content) (.value content)

/-- Related objects have alike attributes under each name. -/
def Object.Likeness (objects : Object → Object → Prop) : Prop :=
  ∀ ⦃o other⦄, objects o other →
    ∀ name, Option.Rel (Attr.Alike objects) (o.attr? name) (other.attr? name)

/-- A likeness between objects in which no name is declared twice. -/
structure Object.DistinctLikeness (objects : Object → Object → Prop) : Prop where
  alike : Object.Likeness objects
  distinct : ∀ ⦃o other⦄, objects o other → o.NamesDistinct ∧ other.NamesDistinct

namespace Attr.Alike

variable {objects : Object → Object → Prop} {attr other : Attr}

theorem refl (reflexive : ∀ o, objects o o) (attr : Attr) : attr.Alike objects attr := by
  cases attr with
  | value content => exact .value content
  | object content => exact .object (reflexive content)
  | relation elements => exact .relation (List.forall₂_same.mpr fun o _ => reflexive o)

theorem kind_eq (alike : attr.Alike objects other) : attr.kind = other.kind := by
  cases alike <;> rfl

theorem text?_eq (alike : attr.Alike objects other) : attr.text? = other.text? := by
  cases alike <;> rfl

theorem isSingle_eq (alike : attr.Alike objects other) : attr.isSingle = other.isSingle := by
  cases alike <;> rfl

end Attr.Alike

namespace Object

theorem distinct_samples {o : Object} (distinct : o.NamesDistinct) : Fields.Distinct o.samples := by
  rcases o with ⟨attrs⟩
  refine distinct.1.sublist ?_
  simp only [samples, relations, Object.attrs]
  generalize attrs = entries
  induction entries with
  | nil => exact List.Sublist.refl _
  | cons entry rest ih =>
      rcases entry with ⟨name, content | content | (_ | ⟨first, others⟩)⟩
      · exact ih.cons name
      · exact ih.cons name
      · exact ih.cons name
      · exact ih.cons_cons name

theorem mem_samples_of_relation? {o first : Object} {name : String} {others : List Object}
    (exposed : o.relation? name = some (first :: others)) : (name, first) ∈ o.samples := by
  rcases o with ⟨attrs⟩
  have held := Fields.mem_of_get?_eq_some (attr?_eq_of_relation? exposed)
  refine List.mem_filterMap.mpr ⟨(name, first :: others), ?_, rfl⟩
  exact List.mem_filterMap.mpr ⟨_, held, rfl⟩

theorem namesDistinct_of_mem_samples {o : Object} {sample : String × Object}
    (distinct : o.NamesDistinct) (member : sample ∈ o.samples) : sample.2.NamesDistinct := by
  rcases relation?_of_mem_samples distinct member with ⟨others, exposed⟩
  exact namesDistinct_of_relation? distinct exposed List.mem_cons_self

end Object

namespace Object.Likeness

variable {objects : Object → Object → Prop} {o other : Object}

theorem eq : Likeness Eq := by
  rintro o _ rfl name
  cases o.attr? name with
  | none => exact .none
  | some attr => exact .some (Attr.Alike.refl (fun _ => rfl) attr)

theorem relation? (likeness : Likeness objects) (same : objects o other) (name : String) :
    Option.Rel (List.Forall₂ objects) (o.relation? name) (other.relation? name) := by
  have alike := likeness same name
  unfold Object.relation?
  generalize o.attr? name = attr, other.attr? name = otherAttr at alike
  rcases alike with ⟨⟨content⟩ | ⟨inner⟩ | ⟨each⟩⟩ | _
  · exact .none
  · exact .none
  · exact .some each
  · exact .none

theorem reach (likeness : Likeness objects) (same : objects o other) (chain : List String) :
    List.Forall₂ (Tallies Eq (Node.Alike objects)) (o.reach chain)
      (other.reach chain) := by
  induction chain generalizing o other with
  | nil => exact .cons (.ok (.object same)) .nil
  | cons name rest ih =>
      have alike := likeness same name
      simp only [Object.reach]
      generalize o.attr? name = attr, other.attr? name = otherAttr at alike
      rcases alike with ⟨⟨content⟩ | ⟨inner⟩ | ⟨each⟩⟩ | _
      · cases rest with
        | nil => exact .cons (.ok (.value content)) .nil
        | cons next more => exact .cons (.error rfl) .nil
      · exact ih inner
      · exact List.rel_flatMap each fun _ _ inner => ih inner
      · exact .cons (.error rfl) .nil

theorem flip (likeness : Likeness objects) : Likeness (flip objects) := by
  intro o other same name
  have alike := likeness same name
  generalize o.attr? name = attr, other.attr? name = otherAttr at alike
  rcases alike with ⟨⟨content⟩ | ⟨inner⟩ | ⟨each⟩⟩ | _
  · exact .some (.value content)
  · exact .some (.object inner)
  · exact .some (.relation (List.Forall₂.flip each))
  · exact .none

theorem isSome_relation?_eq (likeness : Likeness objects) (same : objects o other)
    (name : String) : (o.relation? name).isSome = (other.relation? name).isSome := by
  have alike := likeness.relation? same name
  generalize o.relation? name = elements, other.relation? name = otherElements at alike
  cases alike <;> rfl

theorem exists_sample (likeness : Likeness objects) (same : objects o other) {name : String}
    {first : Object} (distinct : o.NamesDistinct) (member : (name, first) ∈ o.samples) :
    ∃ otherFirst, (name, otherFirst) ∈ other.samples ∧ objects first otherFirst := by
  rcases relation?_of_mem_samples distinct member with ⟨more, exposed⟩
  have alike := likeness.relation? same name
  rw [exposed] at alike
  generalize otherExposed : other.relation? name = elements at alike
  rcases alike with ⟨_ | ⟨firstSame, _⟩⟩
  exact ⟨_, mem_samples_of_relation? otherExposed, firstSame⟩

end Object.Likeness

theorem Object.DistinctLikeness.flip {objects : Object → Object → Prop}
    (likeness : DistinctLikeness objects) : DistinctLikeness (flip objects) :=
  ⟨likeness.alike.flip, fun _ _ same => (likeness.distinct same).symm⟩

/-- Candidates of the same names, each name with related objects. -/
structure Counterparts (objects : Object → Object → Prop) (candidates others : Fields Object) :
    Prop where
  distinct : candidates.Distinct
  otherDistinct : others.Distinct
  forward : ∀ name o, (name, o) ∈ candidates → ∃ other, (name, other) ∈ others ∧ objects o other
  backward : ∀ name other, (name, other) ∈ others → ∃ o, (name, o) ∈ candidates ∧ objects o other

/-- If no candidate and no object below declares a name twice, a route has one derivation at most. -/
theorem Leads.positions_eq {relation : String} {candidates : Fields Object} {route : Route}
    {positions otherPositions : List Nat} (leads : Leads relation candidates positions route)
    (otherLeads : Leads relation candidates otherPositions route) (distinct : candidates.Distinct)
    (each : ∀ candidate ∈ candidates, candidate.2.NamesDistinct) : positions = otherPositions := by
  generalize whole : route = otherRoute at otherLeads
  induction leads generalizing otherPositions otherRoute with
  | direct found exposed =>
      cases otherLeads with
      | direct otherFound _ =>
          cases whole
          rw [SameOutlines.position_eq distinct found otherFound]
      | through unexposed _ _ => simp [unexposed _ (List.mem_of_getElem? found)] at exposed
  | @through _ _ owner _ _ inner unexposed found onward ih =>
      cases otherLeads with
      | direct otherFound exposed => simp [unexposed _ (List.mem_of_getElem? otherFound)] at exposed
      | @through _ _ _ _ _ otherInner _ otherFound otherOnward =>
          simp only [Route.under, Route.names, Route.mk.injEq, List.cons.injEq] at whole
          rcases inner with ⟨start, steps⟩
          rcases otherInner with ⟨otherStart, otherSteps⟩
          rcases whole with ⟨rfl, rfl, rfl⟩
          have position := SameOutlines.position_eq distinct found otherFound
          subst position
          rw [found] at otherFound
          cases otherFound
          have own := each _ (List.mem_of_getElem? found)
          rw [ih (Object.distinct_samples own)
            (fun _ member => Object.namesDistinct_of_mem_samples own member) _ rfl otherOnward]

namespace Counterparts

variable {objects : Object → Object → Prop} {candidates others : Fields Object} {relation : String}

theorem flip (counterparts : Counterparts objects candidates others) :
    Counterparts (flip objects) others candidates :=
  ⟨counterparts.otherDistinct, counterparts.distinct, counterparts.backward, counterparts.forward⟩

theorem samples (likeness : Object.DistinctLikeness objects) {o other : Object}
    (same : objects o other) : Counterparts objects o.samples other.samples := by
  rcases likeness.distinct same with ⟨distinct, otherDistinct⟩
  constructor
  · exact Object.distinct_samples distinct
  · exact Object.distinct_samples otherDistinct
  · exact fun _ _ member => likeness.alike.exists_sample same distinct member
  · exact fun _ _ member => likeness.alike.flip.exists_sample same otherDistinct member

/-- What is derived from candidates is derived from their counterparts, at other positions perhaps. -/
theorem exists_leads (likeness : Object.DistinctLikeness objects)
    (counterparts : Counterparts objects candidates others) {positions : List Nat} {route : Route}
    (leads : Leads relation candidates positions route) :
    ∃ otherPositions, Leads relation others otherPositions route := by
  induction leads generalizing others with
  | direct found exposed =>
      rcases counterparts.forward _ _ (List.mem_of_getElem? found) with ⟨other, otherMem, same⟩
      rcases List.mem_iff_getElem?.mp otherMem with ⟨position, otherFound⟩
      exact ⟨_, .direct otherFound (likeness.alike.isSome_relation?_eq same relation ▸ exposed)⟩
  | through unexposed found onward ih =>
      rcases counterparts.forward _ _ (List.mem_of_getElem? found) with ⟨other, otherMem, same⟩
      rcases List.mem_iff_getElem?.mp otherMem with ⟨position, otherFound⟩
      rcases ih (samples likeness same) with ⟨further, otherOnward⟩
      refine ⟨_, .through ?_ otherFound otherOnward⟩
      rintro ⟨name, candidate⟩ member
      rcases counterparts.backward _ _ member with ⟨original, originalMem, alike⟩
      have hidden := likeness.alike.isSome_relation?_eq alike relation
      rw [unexposed _ originalMem] at hidden
      exact Option.not_isSome_iff_eq_none.mp (by simp [← hidden])

theorem leadsOnly (likeness : Object.DistinctLikeness objects)
    (counterparts : Counterparts objects candidates others) {route : Route}
    (only : LeadsOnly relation candidates route) : LeadsOnly relation others route := by
  rcases only with ⟨positions, leads, unique⟩
  rcases counterparts.exists_leads likeness leads with ⟨otherPositions, otherLeads⟩
  refine ⟨otherPositions, otherLeads, ?_⟩
  intro secondPositions second secondLeads
  rcases counterparts.flip.exists_leads likeness.flip secondLeads with ⟨_, back⟩
  rcases unique _ _ back with ⟨_, rfl⟩
  refine ⟨secondLeads.positions_eq otherLeads counterparts.otherDistinct ?_, rfl⟩
  rintro ⟨name, candidate⟩ member
  rcases counterparts.backward _ _ member with ⟨_, _, same⟩
  exact (likeness.distinct same).2

theorem findRelation?_eq_ok (likeness : Object.DistinctLikeness objects)
    (counterparts : Counterparts objects candidates others) {name : String} {answer : Option Route}
    (found : findRelation? candidates name = .ok answer) :
    findRelation? others name = .ok answer := by
  rw [findRelation?_eq_searchLevel] at found ⊢
  cases answer with
  | none =>
      rw [searchLevel_eq_none_iff] at found ⊢
      intro positions route leads
      rcases counterparts.flip.exists_leads likeness.flip leads with ⟨_, back⟩
      exact found _ _ back
  | some route =>
      rw [searchLevel_eq_some_iff] at found ⊢
      exact counterparts.leadsOnly likeness found

/-- The search finds the same, or it fails with a collision on both sides. -/
theorem findRelation? (likeness : Object.DistinctLikeness objects)
    (counterparts : Counterparts objects candidates others) (name : String) :
    Tallies Fault.SameCategory Eq (findRelation? candidates name) (findRelation? others name) := by
  rcases found : GraphTemplate.findRelation? candidates name with fault | answer
  · rcases otherFound : GraphTemplate.findRelation? others name with otherFault | answer
    · have collides := isCollision_of_searchLevel_eq_error found
      have otherCollides := isCollision_of_searchLevel_eq_error otherFound
      exact .error (collides.1.trans otherCollides.1.symm)
    · rw [counterparts.flip.findRelation?_eq_ok likeness.flip otherFound] at found
      cases found
  · rw [counterparts.findRelation?_eq_ok likeness found]
    exact .ok rfl

end Counterparts

/-- An attribute is offered by the same candidates if these are alike one by one. -/
theorem findAttribute?_eq_of_alike {objects : Object → Object → Prop} {candidates others : Fields Object}
    (likeness : Object.Likeness objects)
    (each : List.Forall₂ (fun candidate other => candidate.1 = other.1 ∧ objects candidate.2 other.2)
      candidates others) (name : String) :
    findAttribute? candidates name = findAttribute? others name := by
  have offers : offering name candidates = offering name others := by
    induction each with
    | nil => rfl
    | @cons candidate other _ _ same _ ih =>
        have alike := likeness same.2 name
        have single : (candidate.2.attr? name).any Attr.isSingle =
            (other.2.attr? name).any Attr.isSingle := by
          generalize candidate.2.attr? name = attr, other.2.attr? name = otherAttr at alike
          rcases alike with attrSame | _
          · simp [attrSame.isSingle_eq]
          · rfl
        simp only [offering, List.filter_cons, single] at ih ⊢
        split
        · rw [List.map_cons, List.map_cons, same.1, ih]
        · exact ih
  unfold findAttribute?
  rw [← offering, ← offering, offers]

end GraphTemplate
