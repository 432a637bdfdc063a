import GraphTemplate.Proofs.Expansion.Outcome

/-!
# Invariants of steps

A step keeps an invariant if it leads from states in which it holds to such states again, whatever
else happens.  What it gives, or how it fails, has a property then.  The rules follow the ways in
which steps are put together.
-/

namespace GraphTemplate

/-- The result is a value of one kind or a fault of another. -/
def Except.Meets {ε α : Type} (faults : ε → Prop) (values : α → Prop) : Except ε α → Prop
  | .ok value => values value
  | .error fault => faults fault

/-- From states of a kind the step leads to such states, with a value or a fault of the given
kinds. -/
def Keeps {ε σ α : Type} (states : σ → Prop) (faults : ε → Prop) (values : α → Prop)
    (step : ExceptT ε (StateM σ) α) : Prop :=
  ∀ state, states state →
    Except.Meets faults values (step.run.run state).1 ∧ states (step.run.run state).2

namespace Except.Meets

variable {ε ε' α β : Type} {faults : ε → Prop} {values : α → Prop} {result : Except ε α}

theorem mono {otherFaults : ε → Prop} {otherValues : α → Prop} (meets : Meets faults values result)
    (faultsFollow : ∀ fault, faults fault → otherFaults fault)
    (valuesFollow : ∀ value, values value → otherValues value) :
    Meets otherFaults otherValues result := by
  cases result with
  | ok value => exact valuesFollow value meets
  | error fault => exact faultsFollow fault meets

theorem of_errors (errors : ∀ fault, result = .error fault → faults fault) :
    Meets faults (fun _ => True) result := by
  cases result with
  | ok value => trivial
  | error fault => exact errors fault rfl

theorem bind {nextValues : β → Prop} {next : α → Except ε β} (first : Meets faults values result)
    (second : ∀ value, values value → Meets faults nextValues (next value)) :
    Meets faults nextValues (result >>= next) := by
  cases result with
  | ok value => exact second value first
  | error fault => exact first

theorem mapError {otherFaults : ε' → Prop} {f : ε → ε'}
    (meets : Meets (fun fault => otherFaults (f fault)) values result) :
    Meets otherFaults values (result.mapError f) := by
  cases result <;> exact meets

theorem allOrError {items : List (Except ε α)} (each : ∀ item ∈ items, Meets faults values item) :
    Meets faults (fun found => ∀ value ∈ found, values value) (allOrError items) := by
  induction items with
  | nil => exact fun _ member => by cases member
  | cons item rest ih =>
      rw [List.forall_mem_cons] at each
      cases item with
      | error fault => exact each.1
      | ok value =>
          have others := ih each.2
          rw [GraphTemplate.allOrError]
          rcases later : GraphTemplate.allOrError rest with fault | found
          · rw [later] at others
            exact others
          · rw [later] at others
            exact List.forall_mem_cons.mpr ⟨each.1, others⟩

end Except.Meets

namespace Keeps

variable {ε σ α β : Type} {states : σ → Prop} {faults : ε → Prop} {values : α → Prop}
  {step : ExceptT ε (StateM σ) α}

theorem pure {value : α} (holds : values value) :
    Keeps states faults values (pure value : ExceptT ε (StateM σ) α) :=
  fun _ kept => ⟨holds, kept⟩

theorem throw {fault : ε} (holds : faults fault) :
    Keeps states faults values (throw fault : ExceptT ε (StateM σ) α) :=
  fun _ kept => ⟨holds, kept⟩

theorem ofResult {result : Except ε α} (meets : Except.Meets faults values result) :
    Keeps states faults values (ExceptT.mk (Pure.pure result) : ExceptT ε (StateM σ) α) :=
  fun _ kept => ⟨meets, kept⟩

theorem mono {otherFaults : ε → Prop} {otherValues : α → Prop}
    (keeps : Keeps states faults values step)
    (faultsFollow : ∀ fault, faults fault → otherFaults fault)
    (valuesFollow : ∀ value, values value → otherValues value) :
    Keeps states otherFaults otherValues step := by
  intro state kept
  rcases keeps state kept with ⟨meets, stillKept⟩
  exact ⟨meets.mono faultsFollow valuesFollow, stillKept⟩

theorem bind {nextValues : β → Prop} {next : α → ExceptT ε (StateM σ) β}
    (first : Keeps states faults values step)
    (second : ∀ value, values value → Keeps states faults nextValues (next value)) :
    Keeps states faults nextValues (step >>= next) := by
  intro state kept
  rcases first state kept with ⟨meets, stillKept⟩
  rcases given : step.run.run state with ⟨fault | value, reached⟩
  · rw [given] at meets stillKept
    rw [run_bind_of_error next given]
    exact ⟨meets, stillKept⟩
  · rw [given] at meets stillKept
    rw [run_bind_of_ok next given]
    exact second value meets reached stillKept

theorem any (step : ExceptT ε (StateM σ) α) :
    Keeps (fun _ => True) (fun _ => True) (fun _ => True) step := by
  intro state _
  refine ⟨?_, trivial⟩
  rcases (step.run.run state).1 with fault | value <;> trivial

/-- What comes behind a step matters only for the values that the step gives. -/
theorem bind_congr {f g : α → ExceptT ε (StateM σ) β}
    (keeps : Keeps (fun _ => True) faults values step)
    (same : ∀ value, values value → f value = g value) : (step >>= f) = step >>= g := by
  apply ExceptT.ext
  apply StateT.ext
  intro state
  have meets := (keeps state trivial).1
  rcases given : step.run.run state with ⟨fault | value, reached⟩
  · rw [run_bind_of_error f given, run_bind_of_error g given]
  · rw [given] at meets
    rw [run_bind_of_ok f given, run_bind_of_ok g given, same value meets]

theorem tryCatch {handler : ε → ExceptT ε (StateM σ) α} {caught : ε → Prop}
    (keeps : Keeps states caught values step)
    (handled : ∀ fault, caught fault → Keeps states faults values (handler fault)) :
    Keeps states faults values (tryCatch step handler) := by
  intro state kept
  rcases keeps state kept with ⟨meets, stillKept⟩
  rcases given : step.run.run state with ⟨fault | value, reached⟩
  · rw [given] at meets stillKept
    rw [run_tryCatch_of_error handler given]
    exact handled fault meets reached stillKept
  · rw [given] at meets stillKept
    rw [run_tryCatch_of_ok handler given]
    exact ⟨meets, stillKept⟩

theorem mapM {items : List β} {f : β → ExceptT ε (StateM σ) α}
    (each : ∀ item ∈ items, Keeps states faults values (f item)) :
    Keeps states faults (fun found => ∀ value ∈ found, values value) (items.mapM f) := by
  induction items with
  | nil => exact pure fun _ member => by cases member
  | cons item rest ih =>
      rw [List.forall_mem_cons] at each
      rw [List.mapM_cons]
      apply each.1.bind
      intro value holds
      apply (ih each.2).bind
      intro others othersHold
      exact pure (List.forall_mem_cons.mpr ⟨holds, othersHold⟩)

theorem locate {search : ExceptT Fault (StateM σ) α} {span : Span} {faults : LocatedFault → Prop}
    (keeps : Keeps states (fun fault => faults ⟨fault, span⟩) values search) :
    Keeps states faults values (Expansion.locate span search) := by
  intro state kept
  rcases keeps state kept with ⟨meets, stillKept⟩
  rw [run_locate]
  exact ⟨meets.mapError, stillKept⟩

theorem ofExcept {result : Except LocatedFault α} {faults : LocatedFault → Prop}
    (meets : Except.Meets faults values result) :
    Keeps states faults values (Expansion.ofExcept result) :=
  ofResult meets

end Keeps

end GraphTemplate
