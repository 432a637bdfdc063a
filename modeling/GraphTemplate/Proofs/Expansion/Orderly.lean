import GraphTemplate.Proofs.Expansion.LookAhead

/-!
# Orderly expansions

The tasks of an expander track the steps of an expansion from the text of a line up to the whole
template.  So an expansion that changes a state comes to an end and emits what the expansion by
values emits, or fails with the same fault.

On the way everything happens as it should.  Calls return with the scope as they found it and only
add to the output.  The root is never popped, and no chain is kept or found that is too short or
begins with an unbound name.  A line is substituted only when none of its names stands for the
elements of an unbound relation.  Therefore no task slips.
-/

namespace GraphTemplate

theorem intercalate_concat {α : Type} (between : List α) {blocks : List (List α)} (last : List α)
    (nonempty : blocks ≠ []) :
    between.intercalate (blocks ++ [last]) = between.intercalate blocks ++ between ++ last := by
  induction blocks with
  | nil => cases nonempty rfl
  | cons first rest ih =>
      rcases rest with _ | ⟨second, more⟩
      · simp
      · rw [List.cons_append, List.intercalate_cons_of_ne_nil (by simp),
          List.intercalate_cons_of_ne_nil (by simp), ih (List.cons_ne_nil _ _)]
        simp only [List.append_assoc]

theorem index_eq_length {α : Type} {items : List α} {done rest : List (α × ℕ)} {item : α}
    {index : ℕ} (split : items.zipIdx = done ++ (item, index) :: rest) : index = done.length := by
  have place : items.zipIdx[done.length]? = some (item, index) := by
    rw [split, List.getElem?_append_right (Nat.le_refl _), Nat.sub_self, List.getElem?_cons_zero]
  rw [List.getElem?_zipIdx, Option.map_eq_some_iff] at place
  rcases place with ⟨_, _, same⟩
  rw [← (Prod.mk.inj same).2, Nat.zero_add]

namespace Expansion

variable {σ α : Type}

theorem ofExcept_allOrError_cons (first : Except LocatedFault α)
    (rest : List (Except LocatedFault α)) :
    (ofExcept (allOrError (first :: rest)) : Expansion σ (List α)) = do
      let value ← ofExcept first
      let values ← ofExcept (allOrError rest)
      return value :: values := by
  rcases first with fault | value
  · rfl
  · rw [allOrError]
    rcases allOrError rest with fault | values <;> rfl

theorem ofExcept_emit {scope : Scope} {line : Line} (standings : List (Standing scope line)) :
    (ofExcept (Line.emit standings) : Expansion σ String) = do
      let texts ← ofExcept (allOrError (standings.filterMap Standing.emit?))
      return String.join texts := by
  rw [Line.emit]
  rcases allOrError (standings.filterMap Standing.emit?) with fault | texts <;> rfl

end Expansion

namespace Expanding

variable {root : Binding} {scope : Scope} {memory : Memory} {output : List String}

section Substitution

variable {line : Line}

theorem looks_textFrom (placeholder : Placeholder) {owner : String} {object : Object}
    (steps : List String) (meaning : scope.lookup? owner = some object) :
    Looks root scope memory output (textFrom placeholder owner steps)
      (Expansion.ofExcept (Anchor.text ⟨placeholder, object, steps⟩))
      (fun result text later => result = text ∧ later = memory) := by
  rw [textFrom]
  apply Looks.after Stays.stage
  simp only [meaning]
  exact Looks.ofExcept _

/-- The text of a part that is text or leads somewhere. -/
theorem looks_partText {part : { part : Part // part ∈ line.parts }}
    {standing : Standing scope line} (answered : Line.Answered memory scope line part standing)
    (noDriver : standing.driver? = none) :
    ∃ text, standing.emit? = some text ∧
      Looks root scope memory output (partText part.1) (Expansion.ofExcept text)
        (fun result text later => result = text ∧ later = memory) := by
  cases answered with
  | @text content member => exact ⟨.ok content, rfl, Looks.pure ⟨rfl, rfl⟩⟩
  | @bound placeholder member object meaning =>
      refine ⟨_, rfl, ?_⟩
      rw [partText, placeholderText]
      apply Looks.after ((stays_resolve_of_bound meaning).locate _)
      exact looks_textFrom placeholder [] meaning
  | @owned placeholder member route owner unbound answer meaning =>
      refine ⟨_, rfl, ?_⟩
      rw [partText, placeholderText]
      apply Looks.after ((stays_resolve unbound answer).locate _)
      exact looks_textFrom placeholder route.steps meaning
  | driving member unbound answer => cases noDriver

theorem looks_mapM_partText {parts : List { part : Part // part ∈ line.parts }}
    {standings : List (Standing scope line)}
    (answered : List.Forall₂ (Line.Answered memory scope line) parts standings)
    (noDriver : ∀ standing ∈ standings, standing.driver? = none) :
    Looks root scope memory output ((parts.map Subtype.val).mapM partText)
      (Expansion.ofExcept (allOrError (standings.filterMap Standing.emit?)))
      (fun result texts later => result = texts ∧ later = memory) := by
  induction answered with
  | nil => exact Looks.pure ⟨rfl, rfl⟩
  | cons first _ ih =>
      rw [List.forall_mem_cons] at noDriver
      rcases looks_partText first noDriver.1 with ⟨text, emitted, looks⟩
      rw [List.map_cons, List.mapM_cons, List.filterMap_cons_some emitted,
        Expansion.ofExcept_allOrError_cons]
      apply looks.bind
      rintro value _ _ _ ⟨rfl, rfl⟩
      apply (ih noDriver.2).bind
      rintro values _ _ _ ⟨rfl, rfl⟩
      exact Looks.pure ⟨rfl, rfl⟩

/-- A name on a line without drivers is bound, or the memory knows it as that of an attribute. -/
theorem resolution_ne_relation {placeholder : Placeholder}
    {member : .placeholder placeholder ∈ line.parts} {standing : Standing scope line}
    (answered : Line.Answered memory scope line ⟨.placeholder placeholder, member⟩ standing)
    (noDriver : standing.driver? = none) (chain : List String) :
    Stage.resolution ⟨scope, memory.resolutions, output⟩ placeholder.root.name ≠
      .ok (.relation chain) := by
  rw [Stage.resolution]
  cases answered with
  | bound _ meaning => simp [meaning]
  | owned _ unbound answer meaning =>
      simp [unbound, Stage.discovery, Memory.lookup_resolutions, answer, Finding.resolution]
  | driving _ unbound answer => cases noDriver

theorem looks_substitute {standings : List (Standing scope line)}
    (answered : List.Forall₂ (Line.Answered memory scope line) line.parts.attach standings)
    (noDriver : ∀ standing ∈ standings, standing.driver? = none) :
    Looks root scope memory output (substitute line) (Expansion.ofExcept (Line.emit standings))
      (fun result text _ => result = text) := by
  have noRelation : Event.Proper root
      (.substituting ⟨scope, memory.resolutions, output⟩ line) := by
    intro name rootMem
    rcases Line.mem_roots.mp rootMem with ⟨placeholder, member, rfl⟩
    rcases exists_of_mem_right answered.flip (List.mem_attach _ ⟨_, member⟩) with
      ⟨standing, standingMem, stands⟩
    exact resolution_ne_relation stands (noDriver standing standingMem)
  rw [substitute, Expansion.ofExcept_emit]
  apply Looks.after Stays.stage
  apply Looks.after (Stays.note noRelation)
  rw [← List.attach_map_subtype_val line.parts]
  apply (looks_mapM_partText answered noDriver).bind
  rintro texts _ _ _ ⟨rfl, rfl⟩
  exact Looks.pure rfl

end Substitution

section Lines

variable {separator : String} {line : Line} {rest : List Line}

/-- The first step of the expansion of lines: the texts of the first line, or of the group that it
leads, and how many lines these are. -/
def expandFirst (separator : String) (scope : Scope) (line : Line) (rest : List Line) :
    Expansion Memory (List String × Nat) := do
  let standings ← line.standings Resolver.remembering scope
  match Driver.shortest? (standings.filterMap Standing.driver?) with
  | none => do
      let text ← Expansion.ofExcept (Line.emit standings)
      return ([text], 1)
  | some driver => do
      let elements ← Expansion.ofExcept ((scope.elements driver.route).mapError
        fun fault => ⟨fault, driver.ident.span⟩)
      let count ← Line.countDeeper Resolver.remembering scope driver.route elements.isEmpty rest
      let blocks ← elements.mapM fun element =>
        Line.expandRun Resolver.remembering separator (scope.bind driver.ident.name element)
          (line :: rest.take count)
      return ((if count = 0 then [] else [separator]).intercalate blocks, count + 1)

theorem expandRun_cons (separator : String) (scope : Scope) (line : Line) (rest : List Line) :
    Line.expandRun Resolver.remembering separator scope (line :: rest) = do
      let (texts, consumed) ← expandFirst separator scope line rest
      return texts ++ (← Line.expandRun Resolver.remembering separator scope
        ((line :: rest).drop consumed)) := by
  rw [Line.expandRun, expandFirst]
  simp only [bind_assoc]
  refine bind_congr fun standings => ?_
  rcases Driver.shortest? (standings.filterMap Standing.driver?) with _ | driver
  · simp only [bind_assoc, pure_bind, List.drop_one, List.tail_cons, List.singleton_append]
  · simp only [bind_assoc, pure_bind, List.drop_succ_cons]

/-- A group is repeated once for each element, with the separator between the repetitions. -/
theorem emits_repetitions (name : String) (count : ℕ) (elements : List Object) {group : List Line}
    (each : ∀ element memory output,
      Emits root (scope.bind name element) memory output (Run.perform separator group)
        (Line.expandRun Resolver.remembering separator (scope.bind name element) group)
        (fun _ texts last => last = output ++ texts)) :
    Emits root scope memory output
      (elements.zipIdx.forM fun (element, index) => do
        if 0 < index ∧ 0 < count then
          say separator
        push name element
        Run.perform separator group
        pop)
      (elements.mapM fun element =>
        Line.expandRun Resolver.remembering separator (scope.bind name element) group)
      (fun _ blocks last =>
        last = output ++ (if count = 0 then [] else [separator]).intercalate blocks) := by
  conv in List.mapM _ elements => rw [← List.zipIdx_map_fst 0 elements]
  apply Emits.forM fun blocks =>
    output ++ (if count = 0 then [] else [separator]).intercalate blocks
  · exact List.append_nil output
  rintro done ⟨element, index⟩ rest split blocks memory lengths
  have lengths : index = blocks.length := (index_eq_length split).trans lengths.symm
  dsimp only
  by_cases separated : 0 < index ∧ 0 < count
  · rw [if_pos separated]
    have more : blocks ≠ [] := List.ne_nil_of_length_pos (lengths ▸ separated.1)
    apply Emits.say
    apply (Emits.bound name element (each element memory _)).mono
    rintro _ block _ rfl
    rw [if_neg (Nat.ne_of_gt separated.2), intercalate_concat _ _ more]
    simp only [List.append_assoc]
  · rw [if_neg separated]
    apply (Emits.bound name element (each element memory _)).mono
    rintro _ block _ rfl
    by_cases first : blocks = []
    · simp [first]
    · have single : count = 0 := by
        have := List.length_pos_iff.mpr first
        omega
      rw [if_pos single, intercalate_concat _ _ first, List.append_nil, List.append_assoc]

theorem emits_performFirst
    (repeated : ∀ (driver : Driver scope line) count element memory output,
      Emits root (scope.bind driver.ident.name element) memory output
        (Run.perform separator (line :: rest.take count))
        (Line.expandRun Resolver.remembering separator (scope.bind driver.ident.name element)
          (line :: rest.take count))
        (fun _ texts last => last = output ++ texts)) :
    Emits root scope memory output (line.performFirst separator rest)
      (expandFirst separator scope line rest)
      (fun result first last => result = first.2 ∧ 1 ≤ first.2 ∧ last = output ++ first.1) := by
  rw [Line.performFirst, expandFirst]
  apply Emits.after Stays.stage
  apply (looks_unboundRelations line).bindEmits
  rintro _ standings later _ ⟨rfl, answered⟩
  rw [shortest?_collect (Line.consistent_of_answered answered)]
  rcases chosen : Driver.shortest? (standings.filterMap Standing.driver?) with _ | driver
  · simp only [Option.map_none]
    apply (looks_substitute answered (Line.driver?_eq_none_of_shortest? chosen)).bindEmits
    rintro text _ last _ rfl
    apply Emits.say
    apply Emits.after (Stays.returned .line (List.prefix_append _ _))
    exact Emits.pure ⟨rfl, Nat.le_refl 1, rfl⟩
  · have known := Line.lookup_of_mem_drivers answered driver (Driver.mem_of_shortest? chosen)
    simp only [Option.map_some]
    apply Looks.bindEmits
    · apply Looks.ofSound
      intro sound
      rcases exists_owner_of_lookup sound known with ⟨owner, meaning⟩
      exact (looks_elements meaning).locate driver.ident.span
    rintro elements _ found _ ⟨rfl, rfl⟩
    apply (looks_countDeeper driver.route elements.isEmpty rest).bindEmits
    rintro count _ reached _ rfl
    apply (emits_repetitions driver.ident.name count elements (repeated driver count)).bind
    rintro _ blocks _ _ rfl
    apply Emits.after (Stays.returned .line (List.prefix_append _ _))
    exact Emits.pure ⟨rfl, Nat.le_add_left 1 count, rfl⟩

/-- Consecutive lines are expanded by tasks as by values.  The induction is that of the expansion by
values, which comes to an end. -/
theorem emits_performRun (separator : String) (scope : Scope) (lines : List Line) :
    Emits root scope memory output (Run.perform separator lines)
      (Line.expandRun Resolver.remembering separator scope lines)
      (fun _ texts last => last = output ++ texts) := by
  induction scope, lines using Line.expandRun.induct generalizing memory output with
  | case1 scope =>
      rw [Run.perform, Line.expandRun]
      apply Emits.after Stays.stage
      rw [← bind_pure (returned _ _)]
      apply Emits.after (Stays.returned .lines List.prefix_rfl)
      exact Emits.pure (List.append_nil output).symm
  | case2 scope line rest emitted repeated later =>
      rw [Run.perform, expandRun_cons]
      apply Emits.after Stays.stage
      apply (emits_performFirst fun driver count element _ _ =>
        repeated driver count element).bind
      rintro _ ⟨texts, _ | count⟩ reached _ ⟨rfl, some, rfl⟩
      · cases some
      · have behind : Emits root scope reached (output ++ texts)
            (do Run.perform separator (rest.drop count)
                returned .lines ⟨scope, memory.resolutions, output⟩)
            (Line.expandRun Resolver.remembering separator scope (rest.drop count))
            (fun _ others last => last = output ++ texts ++ others) := by
          apply (later count).andThen
          rintro _ others _ _ rfl
          refine ⟨Stays.returned .lines ?_, rfl⟩
          rw [List.append_assoc]
          exact List.prefix_append _ _
        apply behind.thenPure
        rintro _ others _ rfl
        exact List.append_assoc _ _ _

end Lines

section Bodies

variable {separator : String}

/-- A call of a task that adds to the output returns. -/
theorem emits_called {α : Type} (call : Call) {task : Expanding LocatedFault Unit}
    {step : Expansion Memory α} {added : α → List String}
    (emits : Emits root scope memory output task step
      (fun _ value last => last = output ++ added value)) :
    Emits root scope memory output (called call task) step
      (fun _ value last => last = output ++ added value) := by
  rw [called]
  apply Emits.after Stays.stage
  apply emits.andThen
  rintro _ value _ _ rfl
  exact ⟨Stays.returned call (List.prefix_append _ _), rfl⟩

theorem emits_performLoop (relation : Ident) (element : String)
    {inner : Expanding LocatedFault Unit} {step : Object → Expansion Memory (List String)}
    (each : ∀ object memory output,
      Emits root (scope.bind element object) memory output inner (step object)
        (fun _ texts last => last = output ++ texts)) :
    Emits root scope memory output (performLoop relation element inner)
      (do let elements ← Body.loopElements Resolver.remembering scope relation element
          elements.mapM step)
      (fun _ blocks last => last = output ++ blocks.flatten) := by
  rw [performLoop]
  apply emits_called
  apply (looks_loopElements relation element).bindEmits
  rintro elements _ later _ rfl
  conv in List.mapM _ elements => rw [← List.map_id elements]
  apply Emits.forM fun blocks => output ++ blocks.flatten
  · exact List.append_nil output
  rintro _ object _ _ blocks memory _
  apply (Emits.bound element object (each object memory _)).mono
  rintro _ texts _ rfl
  rw [List.flatten_append, List.flatten_singleton, List.append_assoc]

theorem emits_performAfter (separator : String) (scope : Scope) (run : List Line) (body : Body) :
    Emits root scope memory output (body.performAfter separator run)
      (body.expandAfter Resolver.remembering separator scope run)
      (fun _ texts last => last = output ++ texts) := by
  induction scope, run, body using Body.expandAfter.induct generalizing memory output with
  | case1 scope run => exact emits_performRun separator scope run
  | case2 scope run content rest ih => exact ih
  | case3 scope run content span rest ih =>
      rw [Body.performAfter, Body.expandAfter]
      apply (emits_performRun separator scope run).bind
      rintro _ texts later _ rfl
      apply Emits.say
      apply ih.thenPure
      rintro _ others _ rfl
      simp only [List.append_assoc, List.singleton_append]
  | case4 scope run relation element inner rest innerIh restIh =>
      rw [Body.performAfter, Body.expandAfter]
      apply (emits_performRun separator scope run).bind
      rintro _ texts later _ rfl
      rw [← bind_assoc]
      apply (emits_performLoop relation element fun object _ _ =>
        emits_called .body (innerIh object)).bind
      rintro _ blocks middle _ rfl
      apply restIh.thenPure
      rintro _ others _ rfl
      simp only [List.append_assoc]

theorem emits_perform (separator : String) (scope : Scope) (body : Body) :
    Emits root scope memory output (body.perform separator)
      (body.expandAfter Resolver.remembering separator scope [])
      (fun _ texts last => last = output ++ texts) :=
  emits_called .body (emits_performAfter separator scope [] body)

end Bodies

end Expanding

/-- Whatever a template is expanded with, the expansion by tasks comes to an end and emits what the
expansion by values emits, or fails with the same error.  It never slips, and everything that
happens on the way is as it should be. -/
theorem Template.perform_orderly (separator : String) (template : Template) (name : String)
    (root : Object) :
    ∃ history, template.perform separator name root =
        some ((template.expandLines separator name root).mapError .fault, history) ∧
      ∀ event ∈ history, event.Proper ⟨name, root⟩ := by
  have startSound : Stage.Sound ⟨name, root⟩ (Expander.start name root).stage :=
    ⟨Scope.outermost_root name root, fun _ impossible => by cases impossible⟩
  have here : (Expander.start name root).At ⟨name, root⟩ (Scope.root name root) [] [] :=
    ⟨⟨startSound, List.forall_mem_singleton.mpr startSound⟩, rfl⟩
  have emitted := Expanding.emits_perform separator (Scope.root name root) template.body _ here
  rcases stepped : (template.body.expandAfter Resolver.remembering separator
    (Scope.root name root) []).run.run [] with ⟨fault | texts, later⟩
  · rcases emitted.of_error fault later stepped with ⟨after, ran, sound⟩
    refine ⟨after.history, ?_, sound.proper⟩
    have expanded : template.expandLines separator name root =
        .error (.ofLocated template.source fault) := by
      simp only [expandLines, Body.expand, stepped]
      rfl
    rw [perform, ran, expanded]
    rfl
  · rcases emitted.of_ok texts later stepped with ⟨_, after, ran, last, same, there⟩
    refine ⟨after.history, ?_, there.sound.proper⟩
    have expanded : template.expandLines separator name root = .ok texts := by
      simp only [expandLines, Body.expand, stepped]
      rfl
    have output : after.stage.output = texts := by
      rw [there.stage_eq, same, List.nil_append]
    rw [perform, ran, expanded, ← output]
    rfl

end GraphTemplate
