import GraphTemplate.Relation.Route
import Mathlib.Data.List.Nodup
import Mathlib.Data.List.Flatten
import Mathlib.Tactic.Choose

/-!
# Uniqueness of routes

What a search for a relation looks for is said here without the search.  A route is derived from
candidates either directly, because a candidate exposes the relation, or below a candidate, from the
samples of its relations; the second only if no candidate of the level exposes the relation.  A
derivation records the positions of the candidates that it passes, so that two candidates of one
name count twice.

The search answers with the one derivable route, with nothing if none is derivable, and with the
names that collide otherwise.  All derivations from the samples of an object are listed by
induction on the object, and the answer is read off the list.
-/

namespace GraphTemplate

namespace Object

theorem sizeOf_sample_lt {o : Object} {sample : String × Object} (member : sample ∈ o.samples) :
    sizeOf sample.2 < sizeOf o := by
  rcases o with ⟨attrs⟩
  simp only [samples, relations, Object.attrs, List.mem_filterMap, Option.map_eq_some_iff] at member
  rcases member with ⟨relation, ⟨⟨name, attr⟩, entryMem, isRelation⟩, first, isFirst, rfl⟩
  cases attr with
  | relation elements =>
      simp only [Option.some.injEq] at isRelation
      subst isRelation
      have inEntry := List.sizeOf_lt_of_mem entryMem
      have inElements := List.sizeOf_lt_of_mem (List.mem_of_mem_head? isFirst)
      simp only [Prod.mk.sizeOf_spec, Attr.relation.sizeOf_spec] at inEntry inElements
      simp only [Object.mk.sizeOf_spec]
      omega
  | value content => simp at isRelation
  | object content => simp at isRelation

/-- What holds of an object whenever it holds of its samples holds of all objects. -/
theorem induction_samples {motive : Object → Prop}
    (step : ∀ o : Object, (∀ sample ∈ o.samples, motive sample.2) → motive o) (o : Object) :
    motive o := by
  apply step o
  intro sample member
  have := sizeOf_sample_lt member
  exact induction_samples step sample.2
termination_by sizeOf o

end Object

/-- The search on one level of candidates, whichever level it is. -/
def searchLevel (relation : String) (level : Nat) (candidates : List (String × Object)) :
    Except Fault (Option Route) :=
  chooseRoute relation level candidates fun _ => routesBelowCandidates relation level candidates

theorem findRelation?_eq_searchLevel (candidates : List (String × Object)) (name : String) :
    findRelation? candidates name = searchLevel (plural name) 0 candidates :=
  rfl

theorem routesBelowAttrs_eq_routesBelowCandidates (relation : String) (level : Nat)
    (attrs : List (String × Attr)) :
    Object.routesBelowAttrs relation level attrs =
      routesBelowCandidates relation level (Object.mk attrs).samples := by
  induction attrs with
  | nil => rfl
  | cons entry rest ih =>
      rcases entry with ⟨name, attr⟩
      simp only [Object.samples, Object.relations, Object.attrs] at ih
      rcases attr with _ | _ | (_ | ⟨first, others⟩) <;>
        simp only [Object.routesBelowAttrs, Object.samples, Object.relations, Object.attrs,
          List.filterMap_cons, List.head?_nil, List.head?_cons, Option.map_none, Option.map_some,
          routesBelowCandidates, ih]

theorem routeBelow?_eq_searchLevel (relation : String) (level : Nat) (o : Object) :
    o.routeBelow? relation level = searchLevel relation level o.samples := by
  rcases o with ⟨attrs⟩
  rw [Object.routeBelow?, searchLevel, routesBelowAttrs_eq_routesBelowCandidates]

/-- A route to a relation is derived from candidates, through those at the given positions. -/
inductive Leads (relation : String) : List (String × Object) → List Nat → Route → Prop where
  | direct {candidates : List (String × Object)} {position : Nat} {owner : String}
      {object : Object} (found : candidates[position]? = some (owner, object))
      (exposed : (object.relation? relation).isSome) :
      Leads relation candidates [position] ⟨owner, [relation]⟩
  | through {candidates : List (String × Object)} {position : Nat} {owner : String}
      {object : Object} {positions : List Nat} {route : Route}
      (unexposed : ∀ candidate ∈ candidates, candidate.2.relation? relation = none)
      (found : candidates[position]? = some (owner, object))
      (onward : Leads relation object.samples positions route) :
      Leads relation candidates (position :: positions) (route.under owner)

/-- The fault names several owners that collide. -/
def Fault.IsCollision (fault : Fault) : Prop :=
  fault.category = .ambiguous ∧ 2 ≤ fault.candidates.length

/-- A list of derivations holds each of the derivations once. -/
structure Enumerates (derivations : List (List Nat × Route))
    (derives : List Nat → Route → Prop) : Prop where
  nodup : (derivations.map Prod.fst).Nodup
  mem_iff : ∀ positions route, (positions, route) ∈ derivations ↔ derives positions route

/-- The answer of a search that has these routes to choose from. -/
def Answers (result : Except Fault (Option Route)) : List Route → Prop
  | [] => result = .ok none
  | [route] => result = .ok (some route)
  | _ => ∃ fault, result = .error fault ∧ fault.IsCollision

/-- All of these routes are collected, or a collision among them is met before. -/
def Collects (result : Except Fault (List Route)) (routes : List Route) : Prop :=
  result = .ok routes ∨ 2 ≤ routes.length ∧ ∃ fault, result = .error fault ∧ fault.IsCollision

/-- Derivations of each candidate, put behind the position of the candidate. -/
def atPositions (candidates : List (String × Object))
    (each : String × Object → List (List Nat × Route)) : List (List Nat × Route) :=
  candidates.zipIdx.flatMap fun candidate =>
    (each candidate.1).map fun derivation => (candidate.2 :: derivation.1, derivation.2)

theorem mem_atPositions {candidates : List (String × Object)}
    {each : String × Object → List (List Nat × Route)} {positions : List Nat} {route : Route} :
    (positions, route) ∈ atPositions candidates each ↔
      ∃ position candidate further, positions = position :: further ∧
        candidates[position]? = some candidate ∧ (further, route) ∈ each candidate := by
  simp only [atPositions, List.mem_flatMap, List.mem_map, Prod.mk.injEq]
  constructor
  · rintro ⟨⟨candidate, position⟩, member, ⟨further, _⟩, derived, rfl, rfl⟩
    exact ⟨position, candidate, further, rfl, List.mk_mem_zipIdx_iff_getElem?.mp member, derived⟩
  · rintro ⟨position, candidate, further, rfl, found, derived⟩
    exact ⟨(candidate, position), List.mk_mem_zipIdx_iff_getElem?.mpr found, (further, route),
      derived, rfl, rfl⟩

theorem nodup_atPositions {candidates : List (String × Object)}
    {each : String × Object → List (List Nat × Route)}
    (nodup : ∀ candidate ∈ candidates, ((each candidate).map Prod.fst).Nodup) :
    ((atPositions candidates each).map Prod.fst).Nodup := by
  rw [atPositions, List.map_flatMap, List.nodup_flatMap]
  constructor
  · rintro ⟨candidate, position⟩ member
    have candidateMem := List.mem_of_getElem? (List.mk_mem_zipIdx_iff_getElem?.mp member)
    have behind := (nodup candidate candidateMem).map (List.cons_injective (a := position))
    simpa [List.map_map, Function.comp_def] using behind
  · have apart : (candidates.zipIdx.map Prod.snd).Nodup := by
      simp [List.zipIdx_map_snd, List.nodup_range']
    rw [List.Nodup, List.pairwise_map] at apart
    refine apart.imp ?_
    intro left right different
    simp only [Function.onFun, List.disjoint_left, List.mem_map]
    rintro _ ⟨_, ⟨_, _, rfl⟩, rfl⟩ ⟨_, ⟨_, _, rfl⟩, same⟩
    exact different (List.cons.inj same).1.symm

theorem map_snd_atPositions (candidates : List (String × Object))
    (each : String × Object → List (List Nat × Route)) :
    (atPositions candidates each).map Prod.snd =
      candidates.flatMap fun candidate => (each candidate).map Prod.snd := by
  have firsts : candidates = candidates.zipIdx.map Prod.fst := by simp
  conv_rhs => rw [firsts, List.flatMap_map]
  simp [atPositions, List.map_flatMap, Function.comp_def]

theorem enumerates_direct {relation : String} {candidates : List (String × Object)}
    (exposed : ∃ candidate ∈ candidates, (candidate.2.relation? relation).isSome) :
    Enumerates
      (atPositions candidates fun candidate =>
        if (candidate.2.relation? relation).isSome then [([], ⟨candidate.1, [relation]⟩)] else [])
      (Leads relation candidates) := by
  constructor
  · apply nodup_atPositions
    intro candidate _
    split <;> simp
  · intro positions route
    rw [mem_atPositions]
    constructor
    · rintro ⟨position, ⟨owner, object⟩, further, rfl, found, derived⟩
      split at derived
      · rename_i here
        simp only [List.mem_singleton, Prod.mk.injEq] at derived
        rcases derived with ⟨rfl, rfl⟩
        exact .direct found here
      · simp at derived
    · intro leads
      cases leads with
      | direct found here => exact ⟨_, _, [], rfl, found, by simp [here]⟩
      | through unexposed found onward =>
          rcases exposed with ⟨candidate, member, here⟩
          simp [unexposed candidate member] at here

theorem enumerates_through {relation : String} {candidates : List (String × Object)}
    {each : String × Object → List (List Nat × Route)}
    (unexposed : ∀ candidate ∈ candidates, candidate.2.relation? relation = none)
    (enumerates : ∀ candidate ∈ candidates,
      Enumerates (each candidate) (Leads relation candidate.2.samples)) :
    Enumerates
      (atPositions candidates fun candidate =>
        (each candidate).map fun derivation => (derivation.1, derivation.2.under candidate.1))
      (Leads relation candidates) := by
  constructor
  · apply nodup_atPositions
    intro candidate member
    simpa [List.map_map, Function.comp_def] using (enumerates candidate member).nodup
  · intro positions route
    simp only [mem_atPositions, List.mem_map, Prod.mk.injEq]
    constructor
    · rintro ⟨position, ⟨owner, object⟩, further, rfl, found, ⟨_, onward⟩, derived, rfl, rfl⟩
      have member := List.mem_of_getElem? found
      exact .through unexposed found (((enumerates _ member).mem_iff _ _).mp derived)
    · intro leads
      cases leads with
      | direct found here =>
          simp [unexposed _ (List.mem_of_getElem? found)] at here
      | through _ found onward =>
          have member := List.mem_of_getElem? found
          exact ⟨_, _, _, rfl, found, (_, _), ((enumerates _ member).mem_iff _ _).mpr onward,
            rfl, rfl⟩

theorem Answers.eq_toList_or_collision {result : Except Fault (Option Route)} {routes : List Route}
    (answers : Answers result routes) :
    (∃ found, result = .ok found ∧ routes = found.toList) ∨
      2 ≤ routes.length ∧ ∃ fault, result = .error fault ∧ fault.IsCollision := by
  rcases routes with _ | ⟨route, _ | ⟨second, more⟩⟩
  · exact Or.inl ⟨none, answers, rfl⟩
  · exact Or.inl ⟨some route, answers, rfl⟩
  · exact Or.inr ⟨by simp, answers⟩

theorem collects_routesBelowCandidates {relation : String} {level : Nat}
    {routesOf : String × Object → List Route} (candidates : List (String × Object))
    (answers : ∀ candidate ∈ candidates,
      Answers (candidate.2.routeBelow? relation (level + 1)) (routesOf candidate)) :
    Collects (routesBelowCandidates relation level candidates)
      (candidates.flatMap fun candidate =>
        (routesOf candidate).map (Route.under candidate.1)) := by
  induction candidates with
  | nil => exact Or.inl rfl
  | cons candidate rest ih =>
      rcases candidate with ⟨owner, object⟩
      have others := ih fun candidate member => answers candidate (List.mem_cons_of_mem _ member)
      rw [routesBelowCandidates, List.flatMap_cons]
      rcases (answers (owner, object) List.mem_cons_self).eq_toList_or_collision with
        ⟨found, first, routes⟩ | ⟨two, fault, failed, collides⟩
      · rw [first, routes]
        rcases others with all | ⟨many, fault, failed, collides⟩
        · left
          cases found <;> simp [all, bind, Except.bind, pure, Except.pure]
        · right
          refine ⟨?_, fault, by simp [failed, bind, Except.bind], collides⟩
          rw [List.length_append]
          omega
      · right
        refine ⟨?_, fault, by simp [failed, bind, Except.bind], collides⟩
        rw [List.length_append, List.length_map]
        omega

theorem map_snd_direct (relation : String) (candidates : List (String × Object)) :
    (atPositions candidates fun candidate =>
        if (candidate.2.relation? relation).isSome then
          [([], (⟨candidate.1, [relation]⟩ : Route))] else []).map Prod.snd =
      (exposers relation candidates).map fun owner => ⟨owner, [relation]⟩ := by
  rw [map_snd_atPositions]
  induction candidates with
  | nil => rfl
  | cons candidate rest ih =>
      by_cases here : (candidate.2.relation? relation).isSome <;>
        simp_all [exposers]

theorem answers_direct {relation : String} {level : Nat} {candidates : List (String × Object)}
    (exposed : ∃ candidate ∈ candidates, (candidate.2.relation? relation).isSome) :
    Answers (searchLevel relation level candidates)
      ((exposers relation candidates).map fun owner => ⟨owner, [relation]⟩) := by
  have nonempty : exposers relation candidates ≠ [] := by
    rcases exposed with ⟨candidate, member, here⟩
    exact List.ne_nil_of_mem (List.mem_map_of_mem (List.mem_filter.mpr ⟨member, here⟩))
  rw [searchLevel, chooseRoute]
  rcases owners : exposers relation candidates with _ | ⟨owner, _ | ⟨second, more⟩⟩
  · exact absurd owners nonempty
  · rfl
  · exact ⟨_, rfl, rfl, by simp [Fault.candidates]⟩

theorem answers_through {relation : String} {level : Nat} {candidates : List (String × Object)}
    {routes : List Route}
    (unexposed : ∀ candidate ∈ candidates, candidate.2.relation? relation = none)
    (collects : Collects (routesBelowCandidates relation level candidates) routes) :
    Answers (searchLevel relation level candidates) routes := by
  have none : exposers relation candidates = [] := by
    rw [exposers, List.filter_eq_nil_iff.mpr, List.map_nil]
    intro candidate member
    simp [unexposed candidate member]
  rw [searchLevel, chooseRoute, none]
  rcases collects with all | ⟨many, fault, failed, collides⟩
  · simp only [all, bind, Except.bind]
    rcases routes with _ | ⟨route, _ | ⟨second, more⟩⟩
    · rfl
    · rfl
    · exact ⟨_, rfl, rfl, by simp [Fault.candidates]⟩
  · simp only [failed, bind, Except.bind]
    rcases routes with _ | ⟨route, _ | ⟨second, more⟩⟩
    · simp at many
    · simp at many
    · exact ⟨fault, rfl, collides⟩

theorem exists_enumeration_of_samples {relation : String} {level : Nat}
    {candidates : List (String × Object)}
    (below : ∀ candidate ∈ candidates, ∃ derivations,
      Enumerates derivations (Leads relation candidate.2.samples) ∧
        Answers (candidate.2.routeBelow? relation (level + 1)) (derivations.map Prod.snd)) :
    ∃ derivations, Enumerates derivations (Leads relation candidates) ∧
      Answers (searchLevel relation level candidates) (derivations.map Prod.snd) := by
  by_cases exposed : ∃ candidate ∈ candidates, (candidate.2.relation? relation).isSome
  · refine ⟨_, enumerates_direct exposed, ?_⟩
    rw [map_snd_direct]
    exact answers_direct exposed
  · have unexposed : ∀ candidate ∈ candidates, candidate.2.relation? relation = none := by
      simpa using exposed
    choose! each enumerates answers using below
    refine ⟨_, enumerates_through unexposed enumerates, answers_through unexposed ?_⟩
    have collects := collects_routesBelowCandidates candidates answers
    simp only [map_snd_atPositions, List.map_map, Function.comp_def] at collects ⊢
    exact collects

theorem exists_enumeration_of_object (relation : String) (o : Object) :
    ∀ level, ∃ derivations, Enumerates derivations (Leads relation o.samples) ∧
      Answers (o.routeBelow? relation level) (derivations.map Prod.snd) := by
  induction o using Object.induction_samples with
  | step o ih =>
      intro level
      rw [routeBelow?_eq_searchLevel]
      apply exists_enumeration_of_samples
      intro sample member
      exact ih sample member (level + 1)

/-- The derivations from candidates can be listed, and the search answers by the list. -/
theorem exists_enumeration (relation : String) (level : Nat)
    (candidates : List (String × Object)) :
    ∃ derivations, Enumerates derivations (Leads relation candidates) ∧
      Answers (searchLevel relation level candidates) (derivations.map Prod.snd) := by
  apply exists_enumeration_of_samples
  intro candidate _
  exact exists_enumeration_of_object relation candidate.2 (level + 1)

/-- A route is derived from candidates, and no other derivation is possible. -/
def LeadsOnly (relation : String) (candidates : List (String × Object)) (route : Route) : Prop :=
  ∃ positions, Leads relation candidates positions route ∧
    ∀ otherPositions other, Leads relation candidates otherPositions other →
      otherPositions = positions ∧ other = route

/-- Two derivations from candidates are possible, to the same route or to different ones. -/
def LeadsTwice (relation : String) (candidates : List (String × Object)) : Prop :=
  ∃ positions route otherPositions other, positions ≠ otherPositions ∧
    Leads relation candidates positions route ∧ Leads relation candidates otherPositions other

section

variable {relation : String} {level : Nat} {candidates : List (String × Object)}

theorem searchLevel_eq_none_iff :
    searchLevel relation level candidates = .ok none ↔
      ∀ positions route, ¬Leads relation candidates positions route := by
  rcases exists_enumeration relation level candidates with ⟨derivations, enumerates, answers⟩
  simp only [← enumerates.mem_iff]
  rcases derivations with _ | ⟨first, _ | ⟨second, more⟩⟩
  · simpa [Answers] using answers
  · rw [show searchLevel relation level candidates = .ok (some first.2) from answers]
    simp
  · rcases answers with ⟨fault, failed, _⟩
    rw [failed]
    constructor
    · intro impossible
      cases impossible
    · intro absent
      exact absurd List.mem_cons_self (absent first.1 first.2)

theorem searchLevel_eq_some_iff {route : Route} :
    searchLevel relation level candidates = .ok (some route) ↔
      LeadsOnly relation candidates route := by
  rcases exists_enumeration relation level candidates with ⟨derivations, enumerates, answers⟩
  simp only [LeadsOnly, ← enumerates.mem_iff]
  rcases derivations with _ | ⟨first, _ | ⟨second, more⟩⟩
  · rw [show searchLevel relation level candidates = .ok none from answers]
    simp
  · rw [show searchLevel relation level candidates = .ok (some first.2) from answers]
    constructor
    · intro same
      cases same
      refine ⟨first.1, List.mem_cons_self, ?_⟩
      intro otherPositions other member
      simpa [Prod.ext_iff] using member
    · rintro ⟨positions, member, _⟩
      simp only [List.mem_singleton] at member
      rw [← member]
  · rcases answers with ⟨fault, failed, _⟩
    rw [failed]
    constructor
    · intro impossible
      cases impossible
    · rintro ⟨positions, _, only⟩
      have firstPositions := (only first.1 first.2 (by simp)).1
      have secondPositions := (only second.1 second.2 (by simp)).1
      have apart := enumerates.nodup
      simp [firstPositions, secondPositions] at apart

theorem exists_searchLevel_eq_error_iff :
    (∃ fault, searchLevel relation level candidates = .error fault) ↔
      LeadsTwice relation candidates := by
  rcases exists_enumeration relation level candidates with ⟨derivations, enumerates, answers⟩
  simp only [LeadsTwice, ← enumerates.mem_iff]
  rcases derivations with _ | ⟨first, _ | ⟨second, more⟩⟩
  · rw [show searchLevel relation level candidates = .ok none from answers]
    simp
  · rw [show searchLevel relation level candidates = .ok (some first.2) from answers]
    constructor
    · rintro ⟨fault, impossible⟩
      cases impossible
    · rintro ⟨positions, route, otherPositions, other, different, member, otherMember⟩
      simp only [List.mem_singleton] at member otherMember
      rw [← otherMember] at member
      exact absurd (Prod.ext_iff.mp member).1 different
  · rcases answers with ⟨fault, failed, _⟩
    refine ⟨fun _ => ⟨first.1, first.2, second.1, second.2, ?_, by simp, by simp⟩,
      fun _ => ⟨fault, failed⟩⟩
    intro same
    have apart := enumerates.nodup
    simp [same] at apart

theorem isCollision_of_searchLevel_eq_error {fault : Fault}
    (failed : searchLevel relation level candidates = .error fault) : fault.IsCollision := by
  rcases exists_enumeration relation level candidates with ⟨derivations, _, answers⟩
  rw [failed] at answers
  rcases derivations with _ | ⟨first, _ | ⟨second, more⟩⟩
  · cases answers
  · cases answers
  · rcases answers with ⟨_, same, collides⟩
    cases same
    exact collides

end

/-- The search for the relation of a name finds nothing exactly if no route can be derived from the
candidates, it finds a route exactly if that route has the only derivation there is, and it fails
exactly if there are two derivations.  It fails by naming at least two owners that collide. -/
theorem findRelation?_finds_only_route (candidates : List (String × Object)) (name : String) :
    (findRelation? candidates name = .ok none ↔
      ∀ positions route, ¬Leads (plural name) candidates positions route) ∧
    (∀ route, findRelation? candidates name = .ok (some route) ↔
      LeadsOnly (plural name) candidates route) ∧
    ((∃ fault, findRelation? candidates name = .error fault) ↔
      LeadsTwice (plural name) candidates) ∧
    (∀ fault, findRelation? candidates name = .error fault →
      fault.category = .ambiguous ∧ 2 ≤ fault.candidates.length) := by
  rw [findRelation?_eq_searchLevel]
  refine ⟨searchLevel_eq_none_iff, fun route => searchLevel_eq_some_iff,
    exists_searchLevel_eq_error_iff, ?_⟩
  intro fault failed
  exact isCollision_of_searchLevel_eq_error failed

end GraphTemplate
