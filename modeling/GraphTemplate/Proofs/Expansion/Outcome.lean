import GraphTemplate.Expansion

/-!
# Outcomes of steps

What a step gives, or that it fails, is stated together with what holds of the state before and
after it.  The rules follow the ways in which steps are put together, so that the outcome of an
expansion is computed alongside what its resolver has come to know.
-/

namespace GraphTemplate

theorem eq_ok_iff_toOption {ε α : Type} {result : Except ε α} {value : α} :
    result = .ok value ↔ result.toOption = some value := by
  cases result <;> simp [Except.toOption]

theorem toOption_mapError {ε ε' α : Type} (f : ε → ε') (result : Except ε α) :
    (result.mapError f).toOption = result.toOption := by
  cases result <;> rfl

theorem mapError_eq_ok_iff {ε ε' α : Type} {f : ε → ε'} {result : Except ε α} {value : α} :
    result.mapError f = .ok value ↔ result = .ok value := by
  rw [eq_ok_iff_toOption, toOption_mapError, eq_ok_iff_toOption]

section

variable {ε σ α β : Type} {step : ExceptT ε (StateM σ) α} {state reached : σ}

theorem run_bind_of_ok {value : α} (next : α → ExceptT ε (StateM σ) β)
    (given : step.run.run state = (.ok value, reached)) :
    (step >>= next).run.run state = (next value).run.run reached := by
  simp only [ExceptT.run_bind, StateT.run_bind, given]
  rfl

theorem run_bind_of_error {fault : ε} (next : α → ExceptT ε (StateM σ) β)
    (failed : step.run.run state = (.error fault, reached)) :
    (step >>= next).run.run state = (.error fault, reached) := by
  simp only [ExceptT.run_bind, StateT.run_bind, failed]
  rfl

theorem run_tryCatch_of_ok {value : α} (handler : ε → ExceptT ε (StateM σ) α)
    (given : step.run.run state = (.ok value, reached)) :
    (tryCatch step handler).run.run state = (.ok value, reached) := by
  have opened : (tryCatch step handler).run.run state =
      ExceptT.tryCatch step handler state := rfl
  simp only [StateT.run, ExceptT.run] at given
  rw [opened]
  simp only [ExceptT.tryCatch, ExceptT.mk, Bind.bind, StateT.bind, given]
  rfl

theorem run_tryCatch_of_error {fault : ε} (handler : ε → ExceptT ε (StateM σ) α)
    (failed : step.run.run state = (.error fault, reached)) :
    (tryCatch step handler).run.run state = (handler fault).run.run reached := by
  have opened : (tryCatch step handler).run.run state =
      ExceptT.tryCatch step handler state := rfl
  simp only [StateT.run, ExceptT.run] at failed
  rw [opened]
  simp only [ExceptT.tryCatch, ExceptT.mk, Bind.bind, StateT.bind, failed]
  rfl

end

theorem length_of_mapM {ε σ α β : Type} {items : List α} {f : α → ExceptT ε (StateM σ) β} {state : σ}
    {values : List β} (given : ((items.mapM f).run.run state).1 = .ok values) :
    values.length = items.length := by
  induction items generalizing state values with
  | nil =>
      rw [List.mapM_nil] at given
      cases given
      rfl
  | cons item rest ih =>
      rw [List.mapM_cons] at given
      rcases first : (f item).run.run state with ⟨fault | value, reached⟩
      · rw [run_bind_of_error _ first] at given
        cases given
      · rw [run_bind_of_ok _ first] at given
        rcases later : (rest.mapM f).run.run reached with ⟨fault | others, last⟩
        · rw [run_bind_of_error _ later] at given
          cases given
        · rw [run_bind_of_ok _ later] at given
          cases given
          have lengths := ih (congrArg Prod.fst later)
          rw [List.length_cons, List.length_cons, lengths]

theorem run_locate {σ α : Type} (span : Span) (step : ExceptT Fault (StateM σ) α) (state : σ) :
    (Expansion.locate span step).run.run state =
      ((step.run.run state).1.mapError fun fault => ⟨fault, span⟩, (step.run.run state).2) :=
  rfl

/-- From every state of the first kind the step has the given outcome, which is nothing if it fails;
if it does not fail, it ends in a state of the second kind. -/
def Yields {ε σ α : Type} (before : σ → Prop) (step : ExceptT ε (StateM σ) α) (outcome : Option α)
    (after : σ → Prop) : Prop :=
  ∀ state, before state → (step.run.run state).1.toOption = outcome ∧
    (outcome.isSome → after (step.run.run state).2)

namespace Yields

variable {ε σ α β : Type} {before middle after : σ → Prop}

theorem pure (value : α) : Yields before (pure value : ExceptT ε (StateM σ) α) (some value) before :=
  fun _ holds => ⟨rfl, fun _ => holds⟩

theorem consequence {weaker stronger : σ → Prop} {step : ExceptT ε (StateM σ) α}
    {outcome : Option α} (yields : Yields before step outcome after)
    (enough : ∀ state, weaker state → before state)
    (follows : ∀ state, after state → stronger state) : Yields weaker step outcome stronger := by
  intro state holds
  rcases yields state (enough state holds) with ⟨same, kept⟩
  exact ⟨same, fun given => follows _ (kept given)⟩

theorem bind {step : ExceptT ε (StateM σ) α} {next : α → ExceptT ε (StateM σ) β}
    {outcome : Option α} {nextOutcome : α → Option β} (first : Yields before step outcome middle)
    (second : ∀ value, outcome = some value →
      Yields middle (next value) (nextOutcome value) after) :
    Yields before (step >>= next) (outcome >>= nextOutcome) after := by
  intro state holds
  rcases first state holds with ⟨same, kept⟩
  rcases given : step.run.run state with ⟨_ | value, reached⟩
  · rw [given] at same
    subst same
    rw [run_bind_of_error next given]
    exact ⟨rfl, fun impossible => by cases impossible⟩
  · rw [given] at same kept
    subst same
    rw [run_bind_of_ok next given]
    exact second value rfl reached (kept rfl)

theorem andThen {step : ExceptT ε (StateM σ) α} {next : α → ExceptT ε (StateM σ) β} {value : α}
    {outcome : Option β} (first : Yields before step (some value) middle)
    (second : Yields middle (next value) outcome after) :
    Yields before (step >>= next) outcome after := by
  have both : Yields before (step >>= next) (some value >>= fun _ => outcome) after := by
    apply first.bind
    intro given same
    cases same
    exact second
  exact both

theorem ofExcept (result : Except LocatedFault α) :
    Yields before (Expansion.ofExcept result) result.toOption before :=
  fun _ holds => ⟨rfl, fun _ => holds⟩

theorem locate {step : ExceptT Fault (StateM σ) α} {outcome : Option α} (span : Span)
    (yields : Yields before step outcome after) :
    Yields before (Expansion.locate span step) outcome after := by
  intro state holds
  rcases yields state holds with ⟨same, kept⟩
  rw [run_locate]
  generalize step.run.run state = result at same kept
  rcases result with ⟨_ | value, reached⟩ <;> exact ⟨same, kept⟩

theorem tryCatch {step : ExceptT ε (StateM σ) α} {handler : ε → ExceptT ε (StateM σ) α} {value : α}
    (yields : Yields before step (some value) after) :
    Yields before (tryCatch step handler) (some value) after := by
  intro state holds
  rcases yields state holds with ⟨same, kept⟩
  rcases given : step.run.run state with ⟨_ | result, reached⟩
  · rw [given] at same
    cases same
  · rw [given] at same kept
    rw [run_tryCatch_of_ok handler given]
    exact ⟨same, kept⟩

theorem mapM {items : List α} {step : α → ExceptT ε (StateM σ) β} {outcome : α → Option β}
    (each : ∀ item ∈ items, Yields before (step item) (outcome item) before) :
    Yields before (items.mapM step) (items.mapM outcome) before := by
  induction items with
  | nil => exact Yields.pure []
  | cons item rest ih =>
      rw [List.mapM_cons, List.mapM_cons]
      apply (each item List.mem_cons_self).bind
      intro value _
      apply (ih fun other member => each other (List.mem_cons_of_mem _ member)).bind
      intro values _
      exact Yields.pure (value :: values)

end Yields

end GraphTemplate
