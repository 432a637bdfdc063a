import GraphTemplate.Proofs.Expansion.Expander
import GraphTemplate.Proofs.Expansion.Substitution
import GraphTemplate.Proofs.Expansion.Outcome
import GraphTemplate.Proofs.Template.Spans
import GraphTemplate.Proofs.Uniformity

/-!
# Answers in a memory

What a resolver that remembers has once answered stays in its memory.  So after the look at a line
the memory has the answers for all its names, and what the parts of the line are can be told by the
memory alone.  An answer goes on from a name that is bound wherever its question is put.
-/

namespace GraphTemplate

namespace Finding

@[simp]
theorem chain?_resolution (finding : Finding) :
    finding.resolution.chain? = some finding.route.names := by
  cases finding <;> rfl

/-- What is found for a name goes on from its owner. -/
theorem ledBy_resolution_iff {isBound : String → Prop} {finding : Finding} :
    finding.resolution.LedBy isBound ↔
      finding.route.steps ≠ [] ∧ isBound finding.route.owner := by
  simp only [Resolution.LedBy, chain?_resolution, Option.some.injEq, forall_eq', Route.names,
    List.head?_cons, exists_eq_left', List.length_cons, ← List.length_pos_iff]
  exact and_congr_left' (by omega)

end Finding

namespace Scope

variable {scope : Scope} {name : String} {finding : Finding}

theorem owner_mem_of_findRelation? {candidates : Fields Object} {route : Route}
    (found : findRelation? candidates name = .ok (some route)) : route.owner ∈ candidates.keys := by
  rw [findRelation?_eq_searchLevel] at found
  have only : LeadsOnly (plural name) candidates ⟨route.owner, route.steps⟩ :=
    searchLevel_eq_some_iff.mp found
  rcases only.of_samples with ⟨object, member, _⟩
  exact List.mem_map_of_mem member

theorem owner_mem_of_relationRoute? {route : Route}
    (found : scope.relationRoute? name = .ok (some route)) :
    route.owner ∈ scope.candidates.keys := by
  rcases relationRoute?_eq_some_iff.mp found with nearest | ⟨_, among⟩
  · have innermost := owner_mem_of_findRelation? nearest
    rw [Fields.keys_cons, Fields.keys_nil, List.mem_singleton] at innermost
    exact innermost ▸ List.mem_map_of_mem (mem_candidates_iff_lookup?.mpr scope.lookup?_innermost)
  · exact owner_mem_of_findRelation? among

/-- What is discovered goes on from a bound name. -/
theorem ledBy_of_discover (found : scope.discover name = .ok finding) :
    finding.resolution.LedBy (· ∈ scope.names) := by
  rw [Finding.ledBy_resolution_iff, mem_names_iff_mem_keys]
  rcases discover_eq_ok_iff.mp found with ⟨route, some, rfl⟩ | ⟨_, route, some, rfl⟩
  · rcases exists_front_of_discover found with ⟨front, steps⟩
    exact ⟨by simp [Finding.route, steps], owner_mem_of_relationRoute? some⟩
  · rcases findAttribute?_eq_ok_iff.mp some with ⟨_, impossible⟩ | ⟨owner, offers, same⟩
    · cases impossible
    · cases same
      have member : owner ∈ offering name scope.candidates := by simp [offers]
      exact ⟨List.cons_ne_nil _ _, (List.filter_sublist.map Prod.fst).subset member⟩

end Scope

theorem Expansion.locate_bind {σ α β : Type} (span : Span) (search : ExceptT Fault (StateM σ) α)
    (next : α → ExceptT Fault (StateM σ) β) :
    locate span (search >>= next) =
      locate span search >>= fun value => locate span (next value) := by
  apply ExceptT.ext
  apply StateT.ext
  intro state
  rcases ran : search.run.run state with ⟨fault | value, reached⟩
  · have failed : (locate span search).run.run state = (.error ⟨fault, span⟩, reached) := by
      rw [run_locate, ran]
      rfl
    rw [run_bind_of_error _ failed, run_locate, run_bind_of_error _ ran]
    rfl
  · have given : (locate span search).run.run state = (.ok value, reached) := by
      rw [run_locate, ran]
      rfl
    rw [run_bind_of_ok _ given, run_locate, run_locate, run_bind_of_ok _ ran]

theorem run_of_run_locate {σ α : Type} {span : Span} {search : ExceptT Fault (StateM σ) α}
    {state reached : σ} {value : α}
    (located : (Expansion.locate span search).run.run state = (.ok value, reached)) :
    search.run.run state = (.ok value, reached) := by
  rw [run_locate, Prod.mk.injEq, mapError_eq_ok_iff] at located
  exact Prod.ext located.1 located.2

/-- Every answer that one memory gives, another one gives too. -/
def Memory.Within (memory later : Memory) : Prop :=
  ∀ question finding, memory.lookup question = some finding → later.lookup question = some finding

theorem Memory.Within.trans {memory later last : Memory} (first : memory.Within later)
    (second : later.Within last) : memory.Within last :=
  fun question finding known => second question finding (first question finding known)

namespace Resolver

variable {scope : Scope} {name : String} {memory later : Memory} {finding : Finding}

/-- Once a name is resolved, the memory answers as the resolver did. -/
theorem lookup_of_find
    (found : (remembering.find scope name).run.run memory = (.ok finding, later)) :
    later.lookup (scope.question name) = some finding ∧ memory.Within later := by
  rcases known : memory.lookup (scope.question name) with _ | answer
  · rcases discovered : scope.discover name with fault | answer
    · rw [find_failed known discovered] at found
      cases found
    · rw [find_discovered known discovered] at found
      cases found
      refine ⟨List.lookup_cons_self, fun question other earlier => ?_⟩
      rw [List.lookup_cons]
      split
      · rename_i same
        rw [eq_of_beq same, known] at earlier
        cases earlier
      · exact earlier
  · rw [find_remembered known] at found
    cases found
    exact ⟨known, fun _ _ earlier => earlier⟩

end Resolver

namespace Line

variable {scope : Scope} {line : Line} {memory later : Memory}

/-- What a part of a line is in a scope, by the answers in a memory. -/
inductive Answered (memory : Memory) (scope : Scope) (line : Line) :
    { part : Part // part ∈ line.parts } → Standing scope line → Prop where
  | text {content : String} (member : .text content ∈ line.parts) :
      Answered memory scope line ⟨.text content, member⟩ (.text content)
  | bound {placeholder : Placeholder} (member : .placeholder placeholder ∈ line.parts)
      {object : Object} (meaning : scope.lookup? placeholder.root.name = some object) :
      Answered memory scope line ⟨.placeholder placeholder, member⟩
        (.anchored ⟨placeholder, object, []⟩)
  | owned {placeholder : Placeholder} (member : .placeholder placeholder ∈ line.parts)
      {route : Route} {owner : Object} (unbound : scope.lookup? placeholder.root.name = none)
      (answer : memory.lookup (scope.question placeholder.root.name) = some (.attribute route))
      (meaning : scope.lookup? route.owner = some owner) :
      Answered memory scope line ⟨.placeholder placeholder, member⟩
        (.anchored ⟨placeholder, owner, route.steps⟩)
  | driving {placeholder : Placeholder} (member : .placeholder placeholder ∈ line.parts)
      {route : Route} (unbound : scope.lookup? placeholder.root.name = none)
      (answer : memory.lookup (scope.question placeholder.root.name) = some (.relation route)) :
      Answered memory scope line ⟨.placeholder placeholder, member⟩
        (.unbound ⟨placeholder.root, route, root_mem_roots member, unbound⟩)

theorem Answered.within {part : { part : Part // part ∈ line.parts }}
    {standing : Standing scope line} (answered : Answered memory scope line part standing)
    (inside : memory.Within later) : Answered later scope line part standing := by
  cases answered with
  | text member => exact .text member
  | bound member meaning => exact .bound member meaning
  | owned member unbound answer meaning =>
      exact .owned member unbound (inside _ _ answer) meaning
  | driving member unbound answer => exact .driving member unbound (inside _ _ answer)

/-- A driver that the memory knows is found at once. -/
theorem run_standing_of_known {placeholder : Placeholder}
    (member : .placeholder placeholder ∈ line.parts) {route : Route}
    (unbound : scope.lookup? placeholder.root.name = none)
    (answer : memory.lookup (scope.question placeholder.root.name) = some (.relation route)) :
    (line.standing Resolver.remembering scope ⟨.placeholder placeholder, member⟩).run.run memory =
      (.ok (.unbound ⟨placeholder.root, route, root_mem_roots member, unbound⟩), memory) := by
  rw [Line.standing]
  split
  · rename_i bound
    rw [unbound] at bound
    cases bound
  · rw [run_locate, run_bind_of_ok _ (Resolver.find_remembered answer)]
    rfl

theorem answered_of_standing {part : { part : Part // part ∈ line.parts }}
    {standing : Standing scope line}
    (stood : (line.standing Resolver.remembering scope part).run.run memory =
      (.ok standing, later)) :
    Answered later scope line part standing ∧ memory.Within later := by
  rcases part with ⟨content | placeholder, member⟩
  · cases stood
    exact ⟨.text member, fun _ _ earlier => earlier⟩
  · rw [Line.standing] at stood
    split at stood
    · rename_i object meaning
      cases stood
      exact ⟨.bound member meaning, fun _ _ earlier => earlier⟩
    · rename_i unbound
      rw [run_locate, Prod.mk.injEq, mapError_eq_ok_iff] at stood
      rcases found : (Resolver.remembering.find scope placeholder.root.name).run.run memory with
        ⟨fault | finding, reached⟩
      · rw [run_bind_of_error _ found] at stood
        cases stood.1
      · rw [run_bind_of_ok _ found] at stood
        rcases Resolver.lookup_of_find found with ⟨answer, inside⟩
        rcases finding with route | route
        · rcases stood with ⟨⟨⟩, ⟨⟩⟩
          exact ⟨.driving member unbound answer, inside⟩
        · rcases meaning : scope.lookup? route.owner with _ | owner
          · simp only [Scope.owner, meaning] at stood
            cases stood.1
          · simp only [Scope.owner, meaning] at stood
            rcases stood with ⟨⟨⟩, ⟨⟩⟩
            exact ⟨.owned member unbound answer meaning, inside⟩

theorem answered_of_mapM_standing {parts : List { part : Part // part ∈ line.parts }}
    {standings : List (Standing scope line)}
    (stood : (parts.mapM (line.standing Resolver.remembering scope)).run.run memory =
      (.ok standings, later)) :
    List.Forall₂ (Answered later scope line) parts standings ∧ memory.Within later := by
  induction parts generalizing memory standings with
  | nil =>
      cases stood
      exact ⟨.nil, fun _ _ earlier => earlier⟩
  | cons part rest ih =>
      rw [List.mapM_cons] at stood
      rcases first : (line.standing Resolver.remembering scope part).run.run memory with
        ⟨fault | standing, reached⟩
      · rw [run_bind_of_error _ first] at stood
        cases stood
      · rw [run_bind_of_ok _ first] at stood
        rcases others : (rest.mapM (line.standing Resolver.remembering scope)).run.run reached with
          ⟨fault | found, last⟩
        · rw [run_bind_of_error _ others] at stood
          cases stood
        · rw [run_bind_of_ok _ others] at stood
          cases stood
          rcases answered_of_standing first with ⟨answered, inside⟩
          rcases ih others with ⟨behind, further⟩
          exact ⟨.cons (answered.within further) behind, inside.trans further⟩

/-- After the look at a line the memory has the answers for its parts. -/
theorem answered_of_standings {standings : List (Standing scope line)}
    (stood : (line.standings Resolver.remembering scope).run.run memory = (.ok standings, later)) :
    List.Forall₂ (Answered later scope line) line.parts.attach standings :=
  (answered_of_mapM_standing stood).1

/-- Drivers for the same name have the same route. -/
def Consistent (drivers : List (Driver scope line)) : Prop :=
  ∀ driver ∈ drivers, ∀ other ∈ drivers, driver.ident.name = other.ident.name →
    driver.route = other.route

theorem Answered.lookup_driver {part : { part : Part // part ∈ line.parts }}
    {standing : Standing scope line} (answered : Answered memory scope line part standing)
    {driver : Driver scope line} (isDriver : standing.driver? = some driver) :
    memory.lookup (scope.question driver.ident.name) = some (.relation driver.route) := by
  cases answered with
  | text member => cases isDriver
  | bound member meaning => cases isDriver
  | owned member unbound answer meaning => cases isDriver
  | driving member unbound answer =>
      cases isDriver
      exact answer

section

variable {parts : List { part : Part // part ∈ line.parts }}
  {standings : List (Standing scope line)}

theorem lookup_of_mem_drivers
    (answered : List.Forall₂ (Answered memory scope line) parts standings) :
    ∀ driver ∈ standings.filterMap Standing.driver?,
      memory.lookup (scope.question driver.ident.name) = some (.relation driver.route) := by
  intro driver member
  rcases List.mem_filterMap.mp member with ⟨standing, standingMem, isDriver⟩
  rcases exists_of_mem_right answered standingMem with ⟨part, _, stands⟩
  exact stands.lookup_driver isDriver

theorem consistent_of_answered
    (answered : List.Forall₂ (Answered memory scope line) parts standings) :
    Consistent (standings.filterMap Standing.driver?) := by
  intro driver member other otherMem same
  have first := lookup_of_mem_drivers answered driver member
  rw [same, lookup_of_mem_drivers answered other otherMem] at first
  exact (Finding.relation.inj (Option.some.inj first)).symm

theorem driver?_eq_none_of_shortest?
    (unchosen : Driver.shortest? (standings.filterMap Standing.driver?) = none) :
    ∀ standing ∈ standings, standing.driver? = none := by
  intro standing member
  rcases isDriver : standing.driver? with _ | driver
  · rfl
  · have driverMem := List.mem_filterMap.mpr ⟨standing, member, isDriver⟩
    rcases Driver.exists_shortest? (List.ne_nil_of_mem driverMem) with ⟨_, found, _⟩
    rw [unchosen] at found
    cases found

end

end Line

end GraphTemplate
