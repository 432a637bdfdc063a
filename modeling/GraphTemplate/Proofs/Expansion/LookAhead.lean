import GraphTemplate.Proofs.Expansion.Answers
import GraphTemplate.Proofs.Expansion.Tracking

/-!
# Tasks that look ahead

The tasks that find out what the names on a line stand for track the steps of the expansion, and
they stay in their scope and emit nothing.  They pass over a name that has been listed as unbound on
the same line already, where the expansion asks its resolver again: the memory knows the answer
then, so that this makes no difference, and the shortest chain and what goes deeper are the same.
-/

namespace GraphTemplate

namespace Expanding

variable {root : Binding} {scope : Scope} {memory : Memory} {output : List String} {name : String}

section Discovery

variable {before : Expander}

theorem run_discover_kept {resolution : Resolution}
    (known : before.stage.resolved.lookup (before.stage.scope.question name) = some resolution) :
    (discover name).run.run before = some (.ok resolution,
      { before with history := .discovered before.stage name resolution :: before.history }) := by
  have answer : before.stage.discovery name = .ok resolution := by
    simp only [Stage.discovery, known]
  rw [discover, run_bind_of_ok _ run_stage]
  simp only [known, answer, ofExcept, pure_bind, Option.isNone_some, Bool.false_eq_true, if_false]
  rfl

theorem run_discover_found {finding : Finding}
    (unknown : before.stage.resolved.lookup (before.stage.scope.question name) = none)
    (found : before.stage.scope.discover name = .ok finding) :
    let question := before.stage.scope.question name
    let next : Stage :=
      { before.stage with resolved := (question, finding.resolution) :: before.stage.resolved }
    (discover name).run.run before = some (.ok finding.resolution,
      ⟨next, .discovered before.stage name finding.resolution ::
        .reached next :: before.history⟩) := by
  have answer : before.stage.discovery name = .ok finding.resolution := by
    simp only [Stage.discovery, unknown, found]
    rfl
  intro question next
  rw [discover, run_bind_of_ok _ run_stage]
  simp only [unknown, answer, ofExcept, pure_bind, Option.isNone_none, if_true]
  rfl

theorem run_discover_failed {fault : Fault}
    (unknown : before.stage.resolved.lookup (before.stage.scope.question name) = none)
    (failed : before.stage.scope.discover name = .error fault) :
    (discover name).run.run before = some (.error (.fault fault), before) := by
  have answer : before.stage.discovery name = .error fault := by
    simp only [Stage.discovery, unknown, failed]
    rfl
  rw [discover, run_bind_of_ok _ run_stage]
  simp only [answer, ofExcept]
  rfl

/-- What is kept for a question begins with a name that is bound wherever the question is put. -/
theorem ledBy_of_lookup (sound : Stage.Sound root ⟨scope, memory.resolutions, output⟩)
    {finding : Finding} (known : memory.lookup (scope.question name) = some finding) :
    finding.resolution.LedBy fun name => (scope.lookup? name).isSome := by
  have led := sound.led (scope.question name, finding.resolution)
    (List.mem_map_of_mem (Memory.mem_of_lookup known))
  rw [Finding.ledBy_resolution_iff] at led ⊢
  exact ⟨led.1, Scope.mem_names_iff.mp led.2⟩

theorem exists_owner_of_lookup (sound : Stage.Sound root ⟨scope, memory.resolutions, output⟩)
    {finding : Finding} (known : memory.lookup (scope.question name) = some finding) :
    ∃ owner, scope.lookup? finding.route.owner = some owner :=
  Option.isSome_iff_exists.mp (Finding.ledBy_resolution_iff.mp (ledBy_of_lookup sound known)).2

/-- A name whose resolution is kept is not resolved again. -/
theorem stays_discover {finding : Finding}
    (known : memory.lookup (scope.question name) = some finding) :
    Stays root scope memory output (discover name) finding.resolution := by
  rintro ⟨stage, history⟩ ⟨sound, rfl⟩
  have kept : memory.resolutions.lookup (scope.question name) = some finding.resolution := by
    rw [Memory.lookup_resolutions, known, Option.map_some]
  refine ⟨_, run_discover_kept kept, ?_⟩
  exact Expander.At.note ⟨sound, rfl⟩ (ledBy_of_lookup sound.stage known)

theorem looks_discover (name : String) :
    Looks root scope memory output (discover name) (Resolver.remembering.find scope name)
      (fun resolution finding _ => resolution = finding.resolution) := by
  rcases known : memory.lookup (scope.question name) with _ | finding
  · rintro ⟨stage, history⟩ ⟨sound, rfl⟩
    have unknown : memory.resolutions.lookup (scope.question name) = none := by
      rw [Memory.lookup_resolutions, known, Option.map_none]
    rcases found : scope.discover name with fault | finding
    · constructor
      · intro _ _ impossible
        rw [Resolver.find_failed known found] at impossible
        cases impossible
      · intro _ _ stepped
        rw [Resolver.find_failed known found] at stepped
        cases stepped
        exact ⟨_, run_discover_failed unknown found, sound, rfl⟩
    · have led := Scope.ledBy_of_discover found
      have extended : Stage.Sound root
          ⟨scope, Memory.resolutions ((scope.question name, finding) :: memory), output⟩ :=
        ⟨sound.stage.rooted, List.forall_mem_cons.mpr ⟨led, sound.stage.led⟩⟩
      have proper : Event.Proper root
          (.discovered ⟨scope, memory.resolutions, output⟩ name finding.resolution) := by
        rw [Finding.ledBy_resolution_iff] at led
        exact Finding.ledBy_resolution_iff.mpr ⟨led.1, Scope.mem_names_iff.mp led.2⟩
      constructor
      · intro _ _ stepped
        rw [Resolver.find_discovered known found] at stepped
        cases stepped
        refine ⟨_, _, run_discover_found unknown found, rfl, ?_⟩
        exact Expander.At.note ⟨sound.proceed extended, rfl⟩ proper
      · intro _ _ impossible
        rw [Resolver.find_discovered known found] at impossible
        cases impossible
  · exact Looks.ofStays (stays_discover known) (Resolver.find_remembered known) rfl

end Discovery

section Unbound

variable {line : Line}

theorem stays_resolve_of_bound {object : Object} (meaning : scope.lookup? name = some object) :
    Stays root scope memory output (resolve name) .bound := by
  intro before here
  refine ⟨before, ?_, here⟩
  rw [resolve, run_bind_of_ok _ run_stage, here.stage_eq]
  simp only [meaning]
  rfl

theorem resolve_eq_discover (unbound : scope.lookup? name = none) {before : Expander}
    (here : before.At root scope memory output) :
    (resolve name).run.run before = (discover name).run.run before := by
  rw [resolve, run_bind_of_ok _ run_stage, here.stage_eq]
  simp only [unbound]

theorem stays_resolve (unbound : scope.lookup? name = none) {finding : Finding}
    (known : memory.lookup (scope.question name) = some finding) :
    Stays root scope memory output (resolve name) finding.resolution := by
  intro before here
  rw [resolve_eq_discover unbound here]
  exact stays_discover known before here

theorem looks_resolve (unbound : scope.lookup? name = none) :
    Looks root scope memory output (resolve name) (Resolver.remembering.find scope name)
      (fun resolution finding _ => resolution = finding.resolution) := by
  rw [resolve]
  apply Looks.after Stays.stage
  simp only [unbound]
  exact looks_discover name

/-- The list of unbound names after those of drivers have been added, each once. -/
def collect (unbound : List (Ident × List String)) (drivers : List (Driver scope line)) :
    List (Ident × List String) :=
  drivers.foldl
    (fun unbound driver =>
      if driver.ident.name ∈ unbound.map fun entry => entry.1.name then unbound
      else unbound ++ [(driver.ident, driver.route.names)])
    unbound

/-- The memory knows that each of the names stands for the elements of an unbound relation. -/
def Listed (memory : Memory) (scope : Scope) (unbound : List (Ident × List String)) : Prop :=
  ∀ entry ∈ unbound, ∃ route, memory.lookup (scope.question entry.1.name) = some (.relation route)

theorem looks_addUnbound {placeholder : Placeholder}
    (member : .placeholder placeholder ∈ line.parts) {unbound : List (Ident × List String)}
    (listed : Listed memory scope unbound) :
    Looks root scope memory output (addUnbound unbound placeholder)
      (line.standing Resolver.remembering scope ⟨.placeholder placeholder, member⟩)
      (fun result standing _ => result = collect unbound standing.driver?.toList) := by
  rw [addUnbound]
  by_cases present : placeholder.root.name ∈ unbound.map fun entry => entry.1.name
  · rw [if_pos present]
    rcases meaning : scope.lookup? placeholder.root.name with _ | object
    · -- The name is not looked up again; the memory would have answered.
      rcases List.mem_map.mp present with ⟨entry, entryMem, same⟩
      rcases listed entry entryMem with ⟨route, answer⟩
      rw [same] at answer
      apply Looks.ofStays (Stays.pure unbound) (Line.run_standing_of_known member meaning answer)
      simp [collect, Standing.driver?, present]
    · rw [Line.standing]
      split
      · exact Looks.pure rfl
      · rename_i unbound
        rw [meaning] at unbound
        cases unbound
  · rw [if_neg present, Line.standing]
    split
    · rename_i object meaning
      apply Looks.after ((stays_resolve_of_bound meaning).locate _)
      exact Looks.pure rfl
    · rename_i meaning
      rw [Expansion.locate_bind]
      apply ((looks_resolve meaning).locate _).bind
      rintro _ finding later located rfl
      rcases finding with route | route
      · apply Looks.pure
        simp [collect, Standing.driver?, present]
      · apply Looks.ofSound
        intro sound
        have known := (Resolver.lookup_of_find (run_of_run_locate located)).1
        rcases exists_owner_of_lookup sound known with ⟨owner, meaning⟩
        simp only [Scope.owner, Finding.route] at meaning ⊢
        rw [meaning]
        exact Looks.pure rfl

theorem collect_append (unbound : List (Ident × List String))
    (drivers others : List (Driver scope line)) :
    collect unbound (drivers ++ others) = collect (collect unbound drivers) others :=
  List.foldl_append

theorem collect_concat (drivers : List (Driver scope line)) (driver : Driver scope line) :
    collect [] (drivers ++ [driver]) =
      if driver.ident.name ∈ (collect [] drivers).map fun entry => entry.1.name then
        collect [] drivers
      else collect [] drivers ++ [(driver.ident, driver.route.names)] :=
  collect_append [] drivers [driver]

theorem Listed.collect {unbound : List (Ident × List String)} (listed : Listed memory scope unbound)
    {drivers : List (Driver scope line)} (answered : ∀ driver ∈ drivers,
      memory.lookup (scope.question driver.ident.name) = some (.relation driver.route)) :
    Listed memory scope (collect unbound drivers) := by
  induction drivers generalizing unbound with
  | nil => exact listed
  | cons driver rest ih =>
      rw [List.forall_mem_cons] at answered
      rw [Expanding.collect, List.foldl_cons]
      split
      · exact ih listed answered.2
      · apply ih _ answered.2
        exact List.forall_mem_append.mpr ⟨listed,
          List.forall_mem_singleton.mpr ⟨driver.route, answered.1⟩⟩

/-- The placeholder that a part is. -/
def placeholder? : Part → Option Placeholder
  | .placeholder placeholder => some placeholder
  | .text _ => none

theorem placeholders_eq (line : Line) :
    line.placeholders = line.parts.attach.filterMap fun part => placeholder? part.1 := by
  rw [Line.placeholders]
  conv_lhs => rw [← List.attach_map_subtype_val line.parts, List.filterMap_map]
  rfl

theorem looks_foldlM_addUnbound {parts : List { part : Part // part ∈ line.parts }}
    {unbound : List (Ident × List String)} (listed : Listed memory scope unbound) :
    Looks root scope memory output
      ((parts.filterMap fun part => placeholder? part.1).foldlM addUnbound unbound)
      (parts.mapM (line.standing Resolver.remembering scope))
      (fun result standings _ =>
        result = collect unbound (standings.filterMap Standing.driver?)) := by
  induction parts generalizing unbound memory with
  | nil => exact Looks.pure rfl
  | cons part rest ih =>
      rw [List.mapM_cons]
      rcases part with ⟨content | placeholder, member⟩
      · rw [List.filterMap_cons_none rfl, Line.standing, pure_bind]
        exact (ih listed).thenPure fun _ _ _ holds => holds
      · simp only [List.filterMap_cons, placeholder?, List.foldlM_cons]
        apply (looks_addUnbound member listed).bind
        rintro _ standing later stood rfl
        rcases Line.answered_of_standing stood with ⟨answered, inside⟩
        have stillListed : Listed later scope (collect unbound standing.driver?.toList) := by
          apply Listed.collect
          · intro entry entryMem
            rcases listed entry entryMem with ⟨route, answer⟩
            exact ⟨route, inside _ _ answer⟩
          · intro driver driverMem
            exact answered.lookup_driver (Option.mem_toList.mp driverMem)
        apply (ih stillListed).thenPure
        rintro _ standings _ rfl
        rw [← collect_append, List.filterMap_cons]
        cases standing.driver? <;> rfl

theorem looks_unboundRelations (line : Line) :
    Looks root scope memory output (unboundRelations line)
      (line.standings Resolver.remembering scope)
      (fun result standings later =>
        result = collect [] (standings.filterMap Standing.driver?) ∧
          List.Forall₂ (Line.Answered later scope line) line.parts.attach standings) := by
  rw [unboundRelations, placeholders_eq]
  apply (looks_foldlM_addUnbound fun _ impossible => by cases impossible).mono
  rintro _ standings later stood rfl
  exact ⟨rfl, Line.answered_of_standings stood⟩

end Unbound

section Choice

variable {line : Line} {drivers : List (Driver scope line)}

theorem mem_collect_of_mem_drivers {driver : Driver scope line} (member : driver ∈ drivers) :
    driver.ident.name ∈ (collect [] drivers).map fun entry => entry.1.name := by
  induction drivers using List.reverseRecOn with
  | nil => cases member
  | append_singleton rest last ih =>
      rw [collect_concat]
      rcases List.mem_append.mp member with earlier | same
      · split
        · exact ih earlier
        · rw [List.map_append]
          exact List.mem_append_left _ (ih earlier)
      · rw [List.mem_singleton.mp same]
        split
        · assumption
        · simp

theorem exists_driver_of_mem_collect {entry : Ident × List String}
    (member : entry ∈ collect [] drivers) :
    ∃ driver ∈ drivers, entry = (driver.ident, driver.route.names) := by
  induction drivers using List.reverseRecOn with
  | nil => cases member
  | append_singleton rest last ih =>
      have earlier : entry ∈ collect [] rest →
          ∃ driver ∈ rest ++ [last], entry = (driver.ident, driver.route.names) := by
        intro inside
        rcases ih inside with ⟨driver, driverMem, same⟩
        exact ⟨driver, List.mem_append_left _ driverMem, same⟩
      rw [collect_concat] at member
      split at member
      · exact earlier member
      · rcases List.mem_append.mp member with inside | same
        · exact earlier inside
        · exact ⟨last, List.mem_append_right _ (List.mem_singleton_self _),
            List.mem_singleton.mp same⟩

theorem shortest?_concat_drivers (drivers : List (Driver scope line)) (last : Driver scope line) :
    Driver.shortest? (drivers ++ [last]) =
      match Driver.shortest? drivers with
      | none => some last
      | some best =>
          if last.route.names.length < best.route.names.length then some last else some best := by
  induction drivers with
  | nil => rfl
  | cons first rest ih =>
      rw [List.cons_append, Driver.shortest?, ih, Driver.shortest?]
      rcases Driver.shortest? rest with _ | best
      · rfl
      · by_cases closer : last.route.names.length < best.route.names.length <;>
          by_cases shorter : best.route.names.length < first.route.names.length <;>
          by_cases least : last.route.names.length < first.route.names.length <;>
          simp [closer, shorter, least] <;> omega

theorem shortest?_concat (unbound : List (Ident × List String)) (last : Ident × List String) :
    shortest? (unbound ++ [last]) =
      match shortest? unbound with
      | none => some last
      | some best => if last.2.length < best.2.length then some last else some best :=
  List.foldl_append

/-- The first of the names with the shortest chain is that of the driver that is chosen.  Leaving
out a name that was there before does not matter, since its chain is not shorter. -/
theorem shortest?_collect (consistent : Line.Consistent drivers) :
    shortest? (collect [] drivers) =
      (Driver.shortest? drivers).map fun driver => (driver.ident, driver.route.names) := by
  induction drivers using List.reverseRecOn with
  | nil => rfl
  | append_singleton rest last ih =>
      have chosen := ih fun driver member other otherMem =>
        consistent driver (List.mem_append_left _ member) other (List.mem_append_left _ otherMem)
      rw [shortest?_concat_drivers, collect_concat]
      split
      · rename_i present
        rcases List.mem_map.mp present with ⟨_, entryMem, sameName⟩
        rcases exists_driver_of_mem_collect entryMem with ⟨earlier, member, rfl⟩
        have sameRoute : earlier.route = last.route := consistent earlier
          (List.mem_append_left _ member) last (List.mem_append_right _ (List.mem_singleton_self _))
          sameName
        rcases Driver.exists_shortest? (List.ne_nil_of_mem member) with ⟨best, found, _, least⟩
        have notShorter := Nat.not_lt.mpr (sameRoute ▸ least earlier member)
        rw [chosen, found]
        simp only [if_neg notShorter]
      · rw [shortest?_concat, chosen]
        rcases Driver.shortest? rest with _ | best
        · rfl
        · simp only [Option.map_some]
          split <;> rfl

/-- A name leads below a chain if one of the drivers does. -/
theorem any_collect (consistent : Line.Consistent drivers) (property : List String → Bool) :
    ((collect [] drivers).any fun entry => property entry.2) =
      drivers.any fun driver => property driver.route.names := by
  rw [Bool.eq_iff_iff, List.any_eq_true, List.any_eq_true]
  constructor
  · rintro ⟨entry, entryMem, holds⟩
    rcases exists_driver_of_mem_collect entryMem with ⟨driver, member, rfl⟩
    exact ⟨driver, member, holds⟩
  · rintro ⟨driver, member, holds⟩
    rcases List.mem_map.mp (mem_collect_of_mem_drivers member) with ⟨entry, entryMem, sameName⟩
    refine ⟨entry, entryMem, ?_⟩
    rcases exists_driver_of_mem_collect entryMem with ⟨other, otherMem, rfl⟩
    rwa [consistent other otherMem driver member sameName]

end Choice

section Group

theorem looks_goesDeeper (route : Route) (isEmpty : Bool) (line : Line) :
    Looks root scope memory output (goesDeeper route.names isEmpty line)
      (line.goesDeeper Resolver.remembering scope route isEmpty)
      (fun result deeper _ => result = deeper) := by
  apply Looks.tryCatch
  · apply (looks_unboundRelations line).bind
    rintro _ standings later _ ⟨rfl, answered⟩
    apply Looks.pure
    have below := any_collect (Line.consistent_of_answered answered) fun chain =>
      decide (route.names.length < chain.length) && route.names.isPrefixOf chain
    rw [below]
    simp only [Route.isBelow, Bool.and_comm]
  · rintro ⟨fault, span⟩ later
    cases fault with
    | unresolvedName name plural => exact Looks.pure rfl
    | _ => exact Looks.throw _

theorem looks_countDeeper (route : Route) (isEmpty : Bool) (lines : List Line) :
    Looks root scope memory output (countDeeper route.names isEmpty lines)
      (Line.countDeeper Resolver.remembering scope route isEmpty lines)
      (fun result count _ => result = count) := by
  induction lines generalizing memory with
  | nil => exact Looks.pure rfl
  | cons line rest ih =>
      rw [countDeeper, Line.countDeeper]
      apply (looks_goesDeeper route isEmpty line).bind
      rintro deeper _ later _ rfl
      cases deeper with
      | false => exact Looks.pure rfl
      | true =>
          apply ih.bind
          rintro count _ last _ rfl
          exact Looks.pure rfl

end Group

section Elements

/-- The elements at the end of a chain that begins with a bound name. -/
theorem looks_elements {route : Route} {owner : Object}
    (meaning : scope.lookup? route.owner = some owner) :
    Looks root scope memory output (elements route.names)
      (ExceptT.mk (pure (scope.elements route)))
      (fun result elements later => result = elements ∧ later = memory) := by
  have walked : scope.elements route =
      allOrError ((owner.reach route.steps).map Node.element) := by
    simp only [Scope.elements, Scope.owner, meaning]
    rfl
  rw [Route.names, elements, walked]
  apply Looks.after Stays.stage
  simp only [meaning]
  exact Looks.ofExcept _

/-- The elements of a relation of a loop. -/
theorem looks_loopElements (relation : Ident) (element : String) :
    Looks root scope memory output (loopElements relation element)
      (Body.loopElements Resolver.remembering scope relation element)
      (fun result elements _ => result = elements) := by
  rw [loopElements, Body.loopElements]
  apply Looks.after Stays.stage
  rcases exposed : scope.relation? relation.name with _ | elements
  · apply Looks.locate
    apply (looks_discover element).bind
    rintro _ finding later found rfl
    rcases finding with route | route
    · apply Looks.ofSound
      intro sound
      rcases exists_owner_of_lookup sound (Resolver.lookup_of_find found).1 with ⟨owner, meaning⟩
      exact (looks_elements meaning).mono fun _ _ _ _ holds => holds.1
    · exact Looks.throw _
  · exact Looks.pure rfl

end Elements

end Expanding

end GraphTemplate
