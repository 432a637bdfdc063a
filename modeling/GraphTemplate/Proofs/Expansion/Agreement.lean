import GraphTemplate.Proofs.Expansion.Outcome
import GraphTemplate.Proofs.Expansion.Substitution
import GraphTemplate.Proofs.Template.Loops

/-!
# Agreement of resolvers

One expansion is read with two resolvers, of which the reference looks every time.  From related
states both give the same result and end in related states, provided that they do so for each
question, in each scope that fits.  A condition on the states of the reference may be assumed at the
end of a run if it cannot be lost on the way back to the beginning.
-/

namespace GraphTemplate

/-- Two resolvers, and what is needed to compare expansions with them: related states, a condition on
the states of the reference, and the scopes in which questions are asked.  Scopes fit as long as only
elements of discovered relations and of the relations of the given loops are bound. -/
structure Comparison (σ τ : Type) where
  reference : Resolver σ
  other : Resolver τ
  related : σ → τ → Prop
  sound : σ → Prop
  fits : Scope → Prop
  loops : String → String → Prop
  looks : ∀ scope name state, ((reference.find scope name).run.run state).1 = scope.discover name
  sound_of_find : ∀ scope name state,
    sound ((reference.find scope name).run.run state).2 → sound state
  find_eq : ∀ scope name state otherState, fits scope → related state otherState →
    sound ((reference.find scope name).run.run state).2 →
    ((other.find scope name).run.run otherState).1 = scope.discover name ∧
      related ((reference.find scope name).run.run state).2
        ((other.find scope name).run.run otherState).2
  fits_of_discover : ∀ scope name route elements element, fits scope →
    scope.discover name = .ok (.relation route) → scope.elements route = .ok elements →
    element ∈ elements → fits (scope.bind name element)
  fits_of_loop : ∀ scope relation name elements element, fits scope → loops relation name →
    scope.relation? relation = some elements → element ∈ elements → fits (scope.bind name element)

/-- A step gives the same as another one, and what it gives has a property. -/
structure Comparison.Agrees {σ τ ε α : Type} (c : Comparison σ τ) (step : ExceptT ε (StateM σ) α)
    (other : ExceptT ε (StateM τ) α) (property : α → Prop) : Prop where
  sound_before : ∀ state, c.sound (step.run.run state).2 → c.sound state
  holds : ∀ state value, (step.run.run state).1 = .ok value → property value
  same : ∀ state otherState, c.related state otherState → c.sound (step.run.run state).2 →
    (other.run.run otherState).1 = (step.run.run state).1 ∧
      c.related (step.run.run state).2 (other.run.run otherState).2

namespace Comparison.Agrees

variable {σ τ ε α β : Type} {c : Comparison σ τ} {step : ExceptT ε (StateM σ) α}
  {other : ExceptT ε (StateM τ) α} {property : α → Prop}

theorem pure {value : α} (holds : property value) :
    c.Agrees (pure value : ExceptT ε (StateM σ) α) (pure value) property where
  sound_before _ sound := sound
  holds _ _ same := Except.ok.inj same ▸ holds
  same _ _ related _ := ⟨rfl, related⟩

theorem throw (fault : ε) :
    c.Agrees (throw fault : ExceptT ε (StateM σ) α) (throw fault) property where
  sound_before _ sound := sound
  holds _ _ same := by cases same
  same _ _ related _ := ⟨rfl, related⟩

theorem mono {weaker : α → Prop} (agrees : c.Agrees step other property)
    (follows : ∀ value, property value → weaker value) : c.Agrees step other weaker where
  sound_before := agrees.sound_before
  holds state value same := follows value (agrees.holds state value same)
  same := agrees.same

theorem bind {next : α → ExceptT ε (StateM σ) β} {otherNext : α → ExceptT ε (StateM τ) β}
    {nextProperty : β → Prop} (first : c.Agrees step other property)
    (second : ∀ value, property value → c.Agrees (next value) (otherNext value) nextProperty) :
    c.Agrees (step >>= next) (other >>= otherNext) nextProperty := by
  constructor
  · intro state sound
    apply first.sound_before
    rcases given : step.run.run state with ⟨_ | value, reached⟩
    · rwa [run_bind_of_error next given] at sound
    · rw [run_bind_of_ok next given] at sound
      exact (second value (first.holds state value (by rw [given]))).sound_before reached sound
  · intro state result same
    rcases given : step.run.run state with ⟨_ | value, reached⟩
    · rw [run_bind_of_error next given] at same
      cases same
    · rw [run_bind_of_ok next given] at same
      exact (second value (first.holds state value (by rw [given]))).holds reached result same
  · intro state otherState related sound
    rcases given : step.run.run state with ⟨fault | value, reached⟩
    · rw [run_bind_of_error next given] at sound ⊢
      rcases first.same state otherState related (by rwa [given]) with ⟨same, stillRelated⟩
      rcases otherGiven : other.run.run otherState with ⟨result, otherReached⟩
      rw [given, otherGiven] at same stillRelated
      cases same
      rw [run_bind_of_error otherNext otherGiven]
      exact ⟨rfl, stillRelated⟩
    · have further := second value (first.holds state value (by rw [given]))
      rw [run_bind_of_ok next given] at sound ⊢
      -- The condition is given for the end; the first step needs it for the state in between.
      have soundReached := further.sound_before reached sound
      rcases first.same state otherState related (by rwa [given]) with ⟨same, stillRelated⟩
      rcases otherGiven : other.run.run otherState with ⟨result, otherReached⟩
      rw [given, otherGiven] at same stillRelated
      cases same
      rw [run_bind_of_ok otherNext otherGiven]
      exact further.same reached otherReached stillRelated sound

theorem ofResult {result : Except ε α} (holds : ∀ value, result = .ok value → property value) :
    c.Agrees (ExceptT.mk (Pure.pure result) : ExceptT ε (StateM σ) α)
      (ExceptT.mk (Pure.pure result)) property where
  sound_before _ sound := sound
  holds _ value same := holds value same
  same _ _ related _ := ⟨rfl, related⟩

theorem ofExcept {result : Except LocatedFault α} (holds : ∀ value, result = .ok value →
    property value) : c.Agrees (Expansion.ofExcept result) (Expansion.ofExcept result) property :=
  ofResult holds

theorem locate {search : ExceptT Fault (StateM σ) α} {otherSearch : ExceptT Fault (StateM τ) α}
    (span : Span) (agrees : c.Agrees search otherSearch property) :
    c.Agrees (Expansion.locate span search) (Expansion.locate span otherSearch) property := by
  constructor
  · exact agrees.sound_before
  · intro state value same
    rw [run_locate] at same
    apply agrees.holds state value
    generalize (search.run.run state).1 = result at same
    cases result with
    | error fault => cases same
    | ok found => exact congrArg Except.ok (Except.ok.inj same)
  · intro state otherState related sound
    rcases agrees.same state otherState related sound with ⟨same, stillRelated⟩
    rw [run_locate, run_locate, same]
    exact ⟨rfl, stillRelated⟩

theorem tryCatch {handler : ε → ExceptT ε (StateM σ) α} {otherHandler : ε → ExceptT ε (StateM τ) α}
    (agrees : c.Agrees step other property)
    (handled : ∀ fault, c.Agrees (handler fault) (otherHandler fault) property) :
    c.Agrees (tryCatch step handler) (tryCatch other otherHandler) property := by
  constructor
  · intro state sound
    apply agrees.sound_before
    rcases given : step.run.run state with ⟨fault | value, reached⟩
    · rw [run_tryCatch_of_error handler given] at sound
      exact (handled fault).sound_before reached sound
    · rwa [run_tryCatch_of_ok handler given] at sound
  · intro state result same
    rcases given : step.run.run state with ⟨fault | value, reached⟩
    · rw [run_tryCatch_of_error handler given] at same
      exact (handled fault).holds reached result same
    · rw [run_tryCatch_of_ok handler given] at same
      exact agrees.holds state result (by rw [given, ← same])
  · intro state otherState related sound
    rcases given : step.run.run state with ⟨fault | value, reached⟩
    · rw [run_tryCatch_of_error handler given] at sound ⊢
      have soundReached := (handled fault).sound_before reached sound
      rcases agrees.same state otherState related (by rwa [given]) with ⟨same, stillRelated⟩
      rcases otherGiven : other.run.run otherState with ⟨result, otherReached⟩
      rw [given, otherGiven] at same stillRelated
      cases same
      rw [run_tryCatch_of_error otherHandler otherGiven]
      exact (handled fault).same reached otherReached stillRelated sound
    · rw [run_tryCatch_of_ok handler given] at sound ⊢
      rcases agrees.same state otherState related (by rwa [given]) with ⟨same, stillRelated⟩
      rcases otherGiven : other.run.run otherState with ⟨result, otherReached⟩
      rw [given, otherGiven] at same stillRelated
      cases same
      rw [run_tryCatch_of_ok otherHandler otherGiven]
      exact ⟨rfl, stillRelated⟩

theorem mapM {items : List α} {f : α → ExceptT ε (StateM σ) β} {g : α → ExceptT ε (StateM τ) β}
    {each : β → Prop} (agrees : ∀ item ∈ items, c.Agrees (f item) (g item) each) :
    c.Agrees (items.mapM f) (items.mapM g) fun values => ∀ value ∈ values, each value := by
  induction items with
  | nil => exact pure (by simp)
  | cons item rest ih =>
      rw [List.mapM_cons, List.mapM_cons]
      apply (agrees item List.mem_cons_self).bind
      intro value holds
      apply (ih fun other member => agrees other (List.mem_cons_of_mem _ member)).bind
      intro values allHold
      apply pure
      simpa using ⟨holds, allHold⟩

end Comparison.Agrees

namespace Comparison

variable {σ τ : Type} (c : Comparison σ τ) {scope : Scope}

theorem agrees_find (name : String) (fits : c.fits scope) :
    c.Agrees (c.reference.find scope name) (c.other.find scope name)
      fun finding => scope.discover name = .ok finding := by
  constructor
  · exact c.sound_of_find scope name
  · intro state finding same
    rw [← c.looks scope name state]
    exact same
  · intro state otherState related sound
    rw [c.looks]
    exact c.find_eq scope name state otherState fits related sound

/-- What an unbound part stands for was discovered. -/
def Discovered {line : Line} (standing : Standing scope line) : Prop :=
  ∀ driver, standing.driver? = some driver →
    scope.discover driver.ident.name = .ok (.relation driver.route)

theorem agrees_standing (line : Line) (part : { part : Part // part ∈ line.parts })
    (fits : c.fits scope) :
    c.Agrees (line.standing c.reference scope part) (line.standing c.other scope part)
      Discovered := by
  rcases part with ⟨content | placeholder, member⟩
  · apply Agrees.pure
    rintro driver impossible
    cases impossible
  · simp only [Line.standing]
    split
    · apply Agrees.pure
      rintro driver impossible
      cases impossible
    · apply Agrees.locate
      apply (c.agrees_find _ fits).bind
      intro finding discovered
      rcases finding with route | route
      · apply Agrees.pure
        rintro driver isDriver
        cases isDriver
        exact discovered
      · apply (Agrees.ofResult fun _ _ => trivial).bind
        intro owner _
        apply Agrees.pure
        rintro driver impossible
        cases impossible

theorem agrees_standings (line : Line) (fits : c.fits scope) :
    c.Agrees (line.standings c.reference scope) (line.standings c.other scope)
      fun standings => ∀ driver ∈ standings.filterMap Standing.driver?,
        scope.discover driver.ident.name = .ok (.relation driver.route) := by
  apply (Agrees.mapM fun part _ => c.agrees_standing line part fits).mono
  intro standings discovered driver member
  rcases List.mem_filterMap.mp member with ⟨standing, standingMem, isDriver⟩
  exact discovered standing standingMem driver isDriver

theorem agrees_goesDeeper (line : Line) (route : Route) (isEmpty : Bool) (fits : c.fits scope) :
    c.Agrees (line.goesDeeper c.reference scope route isEmpty)
      (line.goesDeeper c.other scope route isEmpty) fun _ => True := by
  apply Agrees.tryCatch
  · apply (c.agrees_standings line fits).bind
    intro standings _
    exact Agrees.pure trivial
  · intro located
    split
    · exact Agrees.pure trivial
    · exact Agrees.throw located

theorem agrees_countDeeper (route : Route) (isEmpty : Bool) (lines : List Line)
    (fits : c.fits scope) :
    c.Agrees (Line.countDeeper c.reference scope route isEmpty lines)
      (Line.countDeeper c.other scope route isEmpty lines) fun _ => True := by
  induction lines with
  | nil => exact Agrees.pure trivial
  | cons line rest ih =>
      simp only [Line.countDeeper]
      apply (c.agrees_goesDeeper line route isEmpty fits).bind
      intro deeper _
      cases deeper with
      | true =>
          apply ih.bind
          intro count _
          exact Agrees.pure trivial
      | false => exact Agrees.pure trivial

theorem agrees_expandRun (separator : String) (lines : List Line) (fits : c.fits scope) :
    c.Agrees (Line.expandRun c.reference separator scope lines)
      (Line.expandRun c.other separator scope lines) fun _ => True := by
  induction scope, lines using Line.expandRun.induct with
  | case1 scope =>
      rw [Line.expandRun, Line.expandRun]
      exact Agrees.pure trivial
  | case2 scope line rest emitted repeated later =>
      rw [Line.expandRun, Line.expandRun]
      apply (c.agrees_standings line fits).bind
      intro standings discovered
      rcases shortest : Driver.shortest? (standings.filterMap Standing.driver?) with _ | driver
      · apply (Agrees.ofExcept fun _ _ => trivial).bind
        intro text _
        apply (emitted fits).bind
        intro texts _
        exact Agrees.pure trivial
      · dsimp only
        have found := discovered driver (Driver.mem_of_shortest? shortest)
        apply (Agrees.ofExcept fun _ => mapError_eq_ok_iff.mp).bind
        intro elements walked
        apply (c.agrees_countDeeper _ _ _ fits).bind
        intro count _
        apply (Agrees.mapM fun element member => repeated driver count element
          (c.fits_of_discover _ _ _ _ _ fits found walked member)).bind
        intro blocks _
        apply (later count fits).bind
        intro texts _
        exact Agrees.pure trivial

theorem agrees_loopElements (relation : Ident) (element : String)
    (known : c.loops relation.name element) (fits : c.fits scope) :
    c.Agrees (Body.loopElements c.reference scope relation element)
      (Body.loopElements c.other scope relation element)
      fun elements => ∀ object ∈ elements, c.fits (scope.bind element object) := by
  simp only [Body.loopElements]
  split
  · rename_i elements exposed
    apply Agrees.pure
    exact fun object member => c.fits_of_loop _ _ _ _ _ fits known exposed member
  · apply Agrees.locate
    apply (c.agrees_find _ fits).bind
    intro finding discovered
    rcases finding with route | route
    · apply Agrees.ofResult
      intro elements walked object member
      exact c.fits_of_discover _ _ _ _ _ fits discovered walked member
    · exact Agrees.throw _

/-- Two resolvers that agree on questions agree on expansions. -/
theorem agrees_expandAfter (separator : String) (scope : Scope) (run : List Line) (body : Body)
    (known : ∀ loop ∈ body.loops, c.loops loop.1 loop.2) (fits : c.fits scope) :
    c.Agrees (body.expandAfter c.reference separator scope run)
      (body.expandAfter c.other separator scope run) fun _ => True := by
  induction scope, run, body using Body.expandAfter.induct with
  | case1 scope run => exact c.agrees_expandRun separator run fits
  | case2 scope run content rest ih => exact ih known fits
  | case3 scope run content span rest ih =>
      simp only [Body.expandAfter]
      apply (c.agrees_expandRun separator run fits).bind
      intro before _
      apply (ih known fits).bind
      intro after _
      exact Agrees.pure trivial
  | case4 scope run relation element inner rest innerIh restIh =>
      simp only [Body.loops, List.cons_append, List.mem_cons, List.mem_append] at known
      simp only [Body.expandAfter]
      apply (c.agrees_expandRun separator run fits).bind
      intro before _
      apply (c.agrees_loopElements relation element (known _ (Or.inl rfl)) fits).bind
      intro elements elementsFit
      apply (Agrees.mapM fun object member => innerIh object
        (fun loop loopMem => known loop (Or.inr (Or.inl loopMem))) (elementsFit object member)).bind
      intro blocks _
      apply (restIh (fun loop loopMem => known loop (Or.inr (Or.inr loopMem))) fits).bind
      intro after _
      exact Agrees.pure trivial

end Comparison

end GraphTemplate
