import GraphTemplate.Proofs.Expansion.Expander
import GraphTemplate.Proofs.Expansion.Outcome

/-!
# Tasks that follow steps

A task on the state of an expander is compared with a step of an expansion from a memory.  The task
tracks the step if it comes to an end and has the same result.  It may do more by itself, such as
writing down what happens.

A task that looks for something stays in its scope and emits nothing, also if it fails.  A task that
emits comes back to its scope with more output; if it fails, it may stop anywhere.
-/

namespace GraphTemplate

namespace Expanding

section Runs

variable {φ α β : Type} {task : Expanding φ α} {before after : Expander}

theorem run_bind_of_ok {value : α} (next : α → Expanding φ β)
    (given : task.run.run before = some (.ok value, after)) :
    (task >>= next).run.run before = (next value).run.run after := by
  simp only [ExceptT.run_bind, StateT.run_bind, given]
  rfl

theorem run_bind_of_error {halt : Halt φ} (next : α → Expanding φ β)
    (halted : task.run.run before = some (.error halt, after)) :
    (task >>= next).run.run before = some (.error halt, after) := by
  simp only [ExceptT.run_bind, StateT.run_bind, halted]
  rfl

theorem run_tryCatch_of_ok {value : α} (handler : Halt φ → Expanding φ α)
    (given : task.run.run before = some (.ok value, after)) :
    (tryCatch task handler).run.run before = some (.ok value, after) := by
  have opened : (tryCatch task handler).run.run before =
      ExceptT.tryCatch task handler before := rfl
  simp only [StateT.run, ExceptT.run] at given
  rw [opened]
  simp only [ExceptT.tryCatch, ExceptT.mk, Bind.bind, StateT.bind, given]
  rfl

theorem run_tryCatch_of_error {halt : Halt φ} (handler : Halt φ → Expanding φ α)
    (halted : task.run.run before = some (.error halt, after)) :
    (tryCatch task handler).run.run before = (handler halt).run.run after := by
  have opened : (tryCatch task handler).run.run before =
      ExceptT.tryCatch task handler before := rfl
  simp only [StateT.run, ExceptT.run] at halted
  rw [opened]
  simp only [ExceptT.tryCatch, ExceptT.mk, Bind.bind, StateT.bind, halted]
  rfl

theorem run_locate {task : Expanding Fault α} {result : Except (Halt Fault) α} (span : Span)
    (ran : task.run.run before = some (result, after)) :
    (locate span task).run.run before =
      some (result.mapError (Halt.map fun fault => ⟨fault, span⟩), after) := by
  have opened : (locate span task).run =
      Except.mapError (Halt.map fun fault => ⟨fault, span⟩) <$> task.run := rfl
  rw [opened, StateT.run_map, ran]
  rfl

theorem run_stage : (stage : Expanding φ Stage).run.run before = some (.ok before.stage, before) :=
  rfl

theorem run_note (event : Event) : (note event : Expanding φ Unit).run.run before =
    some (.ok (), { before with history := event :: before.history }) :=
  rfl

theorem run_say (content : String) : (say content : Expanding φ Unit).run.run before =
    (proceed { before.stage with output := before.stage.output ++ [content] } :
      Expanding φ Unit).run.run before :=
  rfl

theorem run_push (name : String) (object : Object) :
    (push name object : Expanding φ Unit).run.run before =
      (proceed { before.stage with scope := before.stage.scope.bind name object } :
        Expanding φ Unit).run.run before :=
  rfl

theorem run_pop {scope : Scope} (inner : before.stage.scope.unbind? = some scope) :
    (pop : Expanding φ Unit).run.run before =
      (proceed { before.stage with scope := scope } : Expanding φ Unit).run.run before := by
  rw [pop, run_bind_of_ok _ run_stage]
  simp only [inner]

theorem run_returned (call : Call) (start : Stage) :
    (returned call start : Expanding φ Unit).run.run before = some (.ok (),
      { before with history := .returned call start before.stage :: before.history }) :=
  rfl

end Runs

/-- From an expander a task ends as a step does from a memory.  After a value the first condition
holds of the value of the task, that of the step, the memory and the expander; after a fault the
second one holds of the memory and the expander. -/
structure Tracks {φ α β : Type} (before : Expander) (memory : Memory) (task : Expanding φ α)
    (step : ExceptT φ (StateM Memory) β) (given : α → β → Memory → Expander → Prop)
    (failed : Memory → Expander → Prop) : Prop where
  of_ok : ∀ value later, step.run.run memory = (.ok value, later) →
    ∃ result after, task.run.run before = some (.ok result, after) ∧
      given result value later after
  of_error : ∀ fault later, step.run.run memory = (.error fault, later) →
    ∃ after, task.run.run before = some (.error (.fault fault), after) ∧ failed later after

namespace Tracks

variable {φ α β γ δ : Type} {before : Expander} {memory : Memory} {task : Expanding φ α}
  {step : ExceptT φ (StateM Memory) β} {given : α → β → Memory → Expander → Prop}
  {failed : Memory → Expander → Prop}

theorem pure {result : α} {value : β} (holds : given result value memory before) :
    Tracks before memory (pure result : Expanding φ α)
      (pure value : ExceptT φ (StateM Memory) β) given failed where
  of_ok := by
    rintro _ _ ⟨⟩
    exact ⟨result, before, rfl, holds⟩
  of_error := by
    rintro _ _ ⟨⟩

theorem throw {fault : φ} (fails : failed memory before) :
    Tracks before memory (throw (.fault fault) : Expanding φ α)
      (throw fault : ExceptT φ (StateM Memory) β) given failed where
  of_ok := by
    rintro _ _ ⟨⟩
  of_error := by
    rintro _ _ ⟨⟩
    exact ⟨before, rfl, fails⟩

theorem mono {weaker : α → β → Memory → Expander → Prop} {otherFailed : Memory → Expander → Prop}
    (tracks : Tracks before memory task step given failed)
    (follows : ∀ result value later after, step.run.run memory = (.ok value, later) →
      given result value later after → weaker result value later after)
    (fails : ∀ later after, failed later after → otherFailed later after) :
    Tracks before memory task step weaker otherFailed where
  of_ok value later stepped := by
    rcases tracks.of_ok value later stepped with ⟨result, after, ran, holds⟩
    exact ⟨result, after, ran, follows result value later after stepped holds⟩
  of_error fault later stepped := by
    rcases tracks.of_error fault later stepped with ⟨after, ran, holds⟩
    exact ⟨after, ran, fails later after holds⟩

/-- A part of the task that the step has no part for. -/
theorem alone {next : α → Expanding φ γ} {given : γ → β → Memory → Expander → Prop} {value : α}
    {after : Expander} (ran : task.run.run before = some (.ok value, after))
    (rest : Tracks after memory (next value) step given failed) :
    Tracks before memory (task >>= next) step given failed where
  of_ok := by
    rw [run_bind_of_ok next ran]
    exact rest.of_ok
  of_error := by
    rw [run_bind_of_ok next ran]
    exact rest.of_error

theorem bind {next : α → Expanding φ γ} {stepNext : β → ExceptT φ (StateM Memory) δ}
    {nextGiven : γ → δ → Memory → Expander → Prop}
    (first : Tracks before memory task step given failed)
    (second : ∀ result value later after, step.run.run memory = (.ok value, later) →
      given result value later after →
      Tracks after later (next result) (stepNext value) nextGiven failed) :
    Tracks before memory (task >>= next) (step >>= stepNext) nextGiven failed := by
  rcases stepped : step.run.run memory with ⟨fault | value, later⟩
  · rcases first.of_error fault later stepped with ⟨after, ran, fails⟩
    constructor
    · intro value last impossible
      rw [GraphTemplate.run_bind_of_error stepNext stepped] at impossible
      cases impossible
    · intro other last same
      rw [GraphTemplate.run_bind_of_error stepNext stepped] at same
      cases same
      exact ⟨after, run_bind_of_error next ran, fails⟩
  · rcases first.of_ok value later stepped with ⟨result, after, ran, holds⟩
    have rest := second result value later after stepped holds
    constructor
    · rw [GraphTemplate.run_bind_of_ok stepNext stepped, run_bind_of_ok next ran]
      exact rest.of_ok
    · rw [GraphTemplate.run_bind_of_ok stepNext stepped, run_bind_of_ok next ran]
      exact rest.of_error

theorem tryCatch {handler : Halt φ → Expanding φ α} {stepHandler : φ → ExceptT φ (StateM Memory) β}
    {caught : Memory → Expander → Prop} (tracks : Tracks before memory task step given caught)
    (handled : ∀ fault later after, caught later after →
      Tracks after later (handler (.fault fault)) (stepHandler fault) given failed) :
    Tracks before memory (tryCatch task handler) (tryCatch step stepHandler) given failed := by
  rcases stepped : step.run.run memory with ⟨fault | value, later⟩
  · rcases tracks.of_error fault later stepped with ⟨after, ran, fails⟩
    have rest := handled fault later after fails
    constructor
    · rw [GraphTemplate.run_tryCatch_of_error stepHandler stepped,
        run_tryCatch_of_error handler ran]
      exact rest.of_ok
    · rw [GraphTemplate.run_tryCatch_of_error stepHandler stepped,
        run_tryCatch_of_error handler ran]
      exact rest.of_error
  · rcases tracks.of_ok value later stepped with ⟨result, after, ran, holds⟩
    constructor
    · intro other last same
      rw [GraphTemplate.run_tryCatch_of_ok stepHandler stepped] at same
      cases same
      exact ⟨result, after, run_tryCatch_of_ok handler ran, holds⟩
    · intro fault last impossible
      rw [GraphTemplate.run_tryCatch_of_ok stepHandler stepped] at impossible
      cases impossible

theorem locate {task : Expanding Fault α} {step : ExceptT Fault (StateM Memory) β} (span : Span)
    (tracks : Tracks before memory task step given failed) :
    Tracks before memory (locate span task) (Expansion.locate span step) given failed := by
  rcases stepped : step.run.run memory with ⟨fault | value, later⟩
  · rcases tracks.of_error fault later stepped with ⟨after, ran, fails⟩
    constructor
    · intro value last impossible
      rw [GraphTemplate.run_locate, stepped] at impossible
      cases impossible
    · intro located last same
      rw [GraphTemplate.run_locate, stepped] at same
      cases same
      exact ⟨after, run_locate span ran, fails⟩
  · rcases tracks.of_ok value later stepped with ⟨result, after, ran, holds⟩
    constructor
    · intro other last same
      rw [GraphTemplate.run_locate, stepped] at same
      cases same
      exact ⟨result, after, run_locate span ran, holds⟩
    · intro fault last impossible
      rw [GraphTemplate.run_locate, stepped] at impossible
      cases impossible

end Tracks

end Expanding

/-- What a memory holds, with its routes as chains of names. -/
def Memory.resolutions (memory : Memory) : List (Question × Resolution) :=
  memory.map fun entry => (entry.1, entry.2.resolution)

theorem Memory.lookup_resolutions (memory : Memory) (question : Question) :
    memory.resolutions.lookup question = (memory.lookup question).map Finding.resolution := by
  induction memory with
  | nil => rfl
  | cons entry rest ih =>
      rcases entry with ⟨other, finding⟩
      rw [resolutions, List.map_cons, List.lookup_cons, List.lookup_cons]
      cases question == other with
      | true => rfl
      | false => exact ih

namespace Expander

/-- The stage is sound and everything happened as it should. -/
structure Sound (root : Binding) (expander : Expander) : Prop where
  stage : expander.stage.Sound root
  proper : ∀ event ∈ expander.history, event.Proper root

/-- The expander is sound and in a scope, keeps what a memory holds, and has emitted an output. -/
structure At (root : Binding) (scope : Scope) (memory : Memory) (output : List String)
    (expander : Expander) : Prop where
  sound : expander.Sound root
  stage_eq : expander.stage = ⟨scope, memory.resolutions, output⟩

variable {root : Binding} {scope : Scope} {memory : Memory} {output : List String}
  {expander : Expander}

theorem At.note (here : expander.At root scope memory output) {event : Event}
    (proper : event.Proper root) :
    At root scope memory output { expander with history := event :: expander.history } :=
  ⟨⟨here.sound.stage, List.forall_mem_cons.mpr ⟨proper, here.sound.proper⟩⟩, here.stage_eq⟩

theorem Sound.proceed (sound : expander.Sound root) {next : Stage} (nextSound : next.Sound root) :
    Sound root ⟨next, .reached next :: expander.history⟩ :=
  ⟨nextSound, List.forall_mem_cons.mpr ⟨nextSound, sound.proper⟩⟩

end Expander

namespace Expanding

section

variable {φ α β γ δ : Type} (root : Binding) (scope : Scope) (memory : Memory)
  (output : List String)

/-- A task by itself that gives a value and stays where it is. -/
def Stays (task : Expanding φ α) (value : α) : Prop :=
  ∀ before, before.At root scope memory output →
    ∃ after, task.run.run before = some (.ok value, after) ∧ after.At root scope memory output

/-- A task that tracks a step, stays in its scope and emits nothing. -/
def Looks (task : Expanding φ α) (step : ExceptT φ (StateM Memory) β)
    (given : α → β → Memory → Prop) : Prop :=
  ∀ before, before.At root scope memory output →
    Tracks before memory task step
      (fun result value later after =>
        given result value later ∧ after.At root scope later output)
      (fun later after => after.At root scope later output)

/-- A task that tracks a step and comes back to its scope.  The condition tells of the results and
of the output in the end. -/
def Emits (task : Expanding φ α) (step : ExceptT φ (StateM Memory) β)
    (given : α → β → List String → Prop) : Prop :=
  ∀ before, before.At root scope memory output →
    Tracks before memory task step
      (fun result value later after =>
        ∃ last, given result value last ∧ after.At root scope later last)
      (fun _ after => after.Sound root)

end

variable {φ α β γ δ : Type} {root : Binding} {scope : Scope} {memory : Memory}
  {output : List String}

namespace Stays

variable {task : Expanding φ α} {value : α}

theorem pure (value : α) : Stays root scope memory output (pure value : Expanding φ α) value :=
  fun before here => ⟨before, rfl, here⟩

theorem stage : Stays root scope memory output (stage : Expanding φ Stage)
    ⟨scope, memory.resolutions, output⟩ := by
  intro before here
  rw [← here.stage_eq]
  exact ⟨before, run_stage, here⟩

theorem note {event : Event} (proper : event.Proper root) :
    Stays root scope memory output (note event : Expanding φ Unit) () :=
  fun _ here => ⟨_, run_note event, here.note proper⟩

/-- A call may return to where it began with more output. -/
theorem returned (call : Call) {resolved : List (Question × Resolution)} {last : List String}
    (added : output <+: last) :
    Stays root scope memory last (returned call ⟨scope, resolved, output⟩ : Expanding φ Unit)
      () := by
  intro before here
  refine ⟨_, run_returned call _, here.note ?_⟩
  rw [here.stage_eq]
  exact ⟨rfl, added⟩

theorem locate {task : Expanding Fault α} (span : Span)
    (stays : Stays root scope memory output task value) :
    Stays root scope memory output (locate span task) value := by
  intro before here
  rcases stays before here with ⟨after, ran, there⟩
  exact ⟨after, run_locate span ran, there⟩

end Stays

namespace Looks

variable {task : Expanding φ α} {step : ExceptT φ (StateM Memory) β}
  {given : α → β → Memory → Prop}

theorem pure {result : α} {value : β} (holds : given result value memory) :
    Looks root scope memory output (pure result : Expanding φ α)
      (pure value : ExceptT φ (StateM Memory) β) given :=
  fun _ here => Tracks.pure ⟨holds, here⟩

theorem throw (fault : φ) :
    Looks root scope memory output (throw (.fault fault) : Expanding φ α)
      (throw fault : ExceptT φ (StateM Memory) β) given :=
  fun _ here => Tracks.throw here

theorem ofExcept (result : Except φ α) :
    Looks root scope memory output (ofExcept result) (ExceptT.mk (Pure.pure result))
      (fun result value later => result = value ∧ later = memory) := by
  rcases result with fault | value
  · exact throw fault
  · exact pure ⟨rfl, rfl⟩

/-- Where the step changes no memory, the task need not follow it. -/
theorem ofStays {result : α} {value : β} (stays : Stays root scope memory output task result)
    (stepped : step.run.run memory = (.ok value, memory)) (holds : given result value memory) :
    Looks root scope memory output task step given := by
  intro before here
  rcases stays before here with ⟨after, ran, there⟩
  constructor
  · intro _ _ same
    rw [stepped] at same
    cases same
    exact ⟨result, after, ran, holds, there⟩
  · intro _ _ impossible
    rw [stepped] at impossible
    cases impossible

/-- What is known of a stage because it is sound may be used. -/
theorem ofSound
    (looks : Stage.Sound root ⟨scope, memory.resolutions, output⟩ →
      Looks root scope memory output task step given) :
    Looks root scope memory output task step given :=
  fun before here => looks (here.stage_eq ▸ here.sound.stage) before here

theorem mono {weaker : α → β → Memory → Prop}
    (looks : Looks root scope memory output task step given)
    (follows : ∀ result value later, step.run.run memory = (.ok value, later) →
      given result value later → weaker result value later) :
    Looks root scope memory output task step weaker :=
  fun before here => (looks before here).mono
    (fun result value later _ stepped holds =>
      ⟨follows result value later stepped holds.1, holds.2⟩)
    fun _ _ failing => failing

/-- A part of the task that the step has no part for. -/
theorem after {next : α → Expanding φ γ} {given : γ → β → Memory → Prop} {value : α}
    (stays : Stays root scope memory output task value)
    (rest : Looks root scope memory output (next value) step given) :
    Looks root scope memory output (task >>= next) step given := by
  intro before here
  rcases stays before here with ⟨after, ran, there⟩
  exact Tracks.alone ran (rest after there)

theorem bind {next : α → Expanding φ γ} {stepNext : β → ExceptT φ (StateM Memory) δ}
    {nextGiven : γ → δ → Memory → Prop} (first : Looks root scope memory output task step given)
    (second : ∀ result value later, step.run.run memory = (.ok value, later) →
      given result value later →
      Looks root scope later output (next result) (stepNext value) nextGiven) :
    Looks root scope memory output (task >>= next) (step >>= stepNext) nextGiven := by
  intro before here
  apply (first before here).bind
  rintro result value later after stepped ⟨holds, there⟩
  exact second result value later stepped holds after there

/-- A last part of the step that only changes the value. -/
theorem thenPure {f : β → δ} {mapped : α → δ → Memory → Prop}
    (looks : Looks root scope memory output task step given)
    (follows : ∀ result value later, given result value later → mapped result (f value) later) :
    Looks root scope memory output task (step >>= fun value => Pure.pure (f value)) mapped := by
  rw [← bind_pure task]
  apply looks.bind
  intro result value later _ holds
  exact pure (follows result value later holds)

theorem tryCatch {handler : Halt φ → Expanding φ α} {stepHandler : φ → ExceptT φ (StateM Memory) β}
    (looks : Looks root scope memory output task step given)
    (handled : ∀ fault later,
      Looks root scope later output (handler (.fault fault)) (stepHandler fault) given) :
    Looks root scope memory output (tryCatch task handler) (tryCatch step stepHandler) given :=
  fun before here => (looks before here).tryCatch fun fault later after there =>
    handled fault later after there

theorem locate {task : Expanding Fault α} {step : ExceptT Fault (StateM Memory) β} (span : Span)
    (looks : Looks root scope memory output task step given) :
    Looks root scope memory output (locate span task) (Expansion.locate span step) given :=
  fun before here => (looks before here).locate span

/-- A look before the task emits. -/
theorem bindEmits {next : α → Expanding φ γ} {stepNext : β → ExceptT φ (StateM Memory) δ}
    {nextGiven : γ → δ → List String → Prop}
    (first : Looks root scope memory output task step given)
    (second : ∀ result value later, step.run.run memory = (.ok value, later) →
      given result value later →
      Emits root scope later output (next result) (stepNext value) nextGiven) :
    Emits root scope memory output (task >>= next) (step >>= stepNext) nextGiven := by
  intro before here
  have sound := (first before here).mono (fun _ _ _ _ _ holds => holds) fun _ _ there => there.sound
  apply sound.bind
  rintro result value later after stepped ⟨holds, there⟩
  exact second result value later stepped holds after there

end Looks

namespace Emits

variable {task : Expanding φ α} {step : ExceptT φ (StateM Memory) β}
  {given : α → β → List String → Prop}

theorem pure {result : α} {value : β} (holds : given result value output) :
    Emits root scope memory output (pure result : Expanding φ α)
      (pure value : ExceptT φ (StateM Memory) β) given :=
  fun _ here => Tracks.pure ⟨output, holds, here⟩

theorem mono {weaker : α → β → List String → Prop}
    (emits : Emits root scope memory output task step given)
    (follows : ∀ result value last, given result value last → weaker result value last) :
    Emits root scope memory output task step weaker :=
  fun before here => (emits before here).mono
    (fun result value _ _ _ ⟨last, holds, there⟩ => ⟨last, follows result value last holds, there⟩)
    fun _ _ failing => failing

/-- A part of the task that the step has no part for. -/
theorem after {next : α → Expanding φ γ} {given : γ → β → List String → Prop} {value : α}
    (stays : Stays root scope memory output task value)
    (rest : Emits root scope memory output (next value) step given) :
    Emits root scope memory output (task >>= next) step given := by
  intro before here
  rcases stays before here with ⟨after, ran, there⟩
  exact Tracks.alone ran (rest after there)

theorem bind {next : α → Expanding φ γ} {stepNext : β → ExceptT φ (StateM Memory) δ}
    {nextGiven : γ → δ → List String → Prop}
    (first : Emits root scope memory output task step given)
    (second : ∀ result value later last, given result value last →
      Emits root scope later last (next result) (stepNext value) nextGiven) :
    Emits root scope memory output (task >>= next) (step >>= stepNext) nextGiven := by
  intro before here
  apply (first before here).bind
  rintro result value later after _ ⟨last, holds, there⟩
  exact second result value later last holds after there

/-- A last part of the step that only changes the value. -/
theorem thenPure {f : β → δ} {mapped : α → δ → List String → Prop}
    (emits : Emits root scope memory output task step given)
    (follows : ∀ result value last, given result value last → mapped result (f value) last) :
    Emits root scope memory output task (step >>= fun value => Pure.pure (f value)) mapped := by
  rw [← bind_pure task]
  apply emits.bind
  intro result value later last holds
  exact pure (follows result value last holds)

/-- A last part of the task that the step has no part for. -/
theorem andThen {next : α → Expanding φ γ} {result : γ} {nextGiven : γ → β → List String → Prop}
    (emits : Emits root scope memory output task step given)
    (stays : ∀ value other later last, given value other last →
      Stays root scope later last (next value) result ∧ nextGiven result other last) :
    Emits root scope memory output (task >>= next) step nextGiven := by
  rw [← bind_pure step]
  apply emits.bind
  intro value other later last holds
  rcases stays value other later last holds with ⟨stay, nextHolds⟩
  rw [← bind_pure (next value)]
  exact after stay (pure nextHolds)

theorem say {content : String} {next : Unit → Expanding φ γ} {given : γ → β → List String → Prop}
    (rest : Emits root scope memory (output ++ [content]) (next ()) step given) :
    Emits root scope memory output (say content >>= next) step given := by
  intro before here
  have said : Stage.Sound root { before.stage with output := before.stage.output ++ [content] } :=
    ⟨here.sound.stage.rooted, here.sound.stage.led⟩
  refine Tracks.alone (run_say content) (rest _ ⟨here.sound.proceed said, ?_⟩)
  rw [here.stage_eq]

/-- A task with one more name bound around it. -/
theorem bound {inner : Expanding φ Unit} {given : Unit → β → List String → Prop} (name : String)
    (object : Object) (emits : Emits root (scope.bind name object) memory output inner step given) :
    Emits root scope memory output
      (do push name object
          inner
          pop)
      step given := by
  intro before here
  have rooted := here.sound.stage.rooted
  have pushed : Stage.Sound root
      { before.stage with scope := before.stage.scope.bind name object } :=
    ⟨(Scope.outermost_bind _ _ _).trans rooted, here.sound.stage.led⟩
  rw [here.stage_eq] at rooted
  apply Tracks.alone (run_push name object)
  rw [← bind_pure step]
  apply (emits _ ⟨here.sound.proceed pushed, by rw [here.stage_eq]⟩).bind
  rintro _ value later after _ ⟨last, holds, there⟩
  have inside : after.stage.scope.unbind? = some scope := by
    rw [there.stage_eq, Scope.unbind?_bind]
  have popped : Stage.Sound root { after.stage with scope := scope } :=
    ⟨rooted, there.sound.stage.led⟩
  rw [← bind_pure pop]
  refine Tracks.alone (run_pop inside) (Tracks.pure ⟨last, holds, there.sound.proceed popped, ?_⟩)
  rw [there.stage_eq]

/-- A loop that tracks a step for each item.  What is emitted is told for the values that the steps
have given so far. -/
theorem forM {items : List γ} {pick : γ → δ} {f : γ → Expanding φ PUnit}
    {g : δ → ExceptT φ (StateM Memory) β} (emitted : List β → List String)
    (start : emitted [] = output)
    (each : ∀ done item rest, items = done ++ item :: rest → ∀ values memory,
      values.length = done.length →
      Emits root scope memory (emitted values) (f item) (g (pick item))
        (fun _ value last => last = emitted (values ++ [value]))) :
    Emits root scope memory output (items.forM f) ((items.map pick).mapM g)
      (fun _ values last => last = emitted values) := by
  have behind : ∀ rest done values memory, items = done ++ rest → values.length = done.length →
      Emits root scope memory (emitted values) (rest.forM f) ((rest.map pick).mapM g)
        (fun _ others last => last = emitted (values ++ others)) := by
    intro rest
    induction rest with
    | nil =>
        intro done values memory _ _
        rw [List.map_nil, List.mapM_nil]
        exact pure (by rw [List.append_nil])
    | cons item rest ih =>
        intro done values memory split lengths
        rw [List.map_cons, List.mapM_cons]
        apply (each done item rest split values memory lengths).bind
        rintro _ value later _ rfl
        have further := ih (done ++ [item]) (values ++ [value]) later (by simpa using split)
          (by simpa using lengths)
        apply further.thenPure
        rintro _ others _ rfl
        rw [List.append_assoc, List.singleton_append]
  rw [← start]
  simpa using behind items [] [] memory rfl rfl

end Emits

end Expanding

end GraphTemplate
