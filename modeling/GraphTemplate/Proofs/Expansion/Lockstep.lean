import GraphTemplate.Proofs.Expansion.Outcome
import GraphTemplate.Proofs.Expansion.Pieces
import GraphTemplate.Proofs.Template.Likeness
import GraphTemplate.Proofs.Template.Loops
import Mathlib.Data.List.Forall2

/-!
# Expansions in lockstep

Two expansions of alike bodies in alike scopes, each with its own resolver, are followed side by side.
As long as the resolvers give the same answers, the expansions make the same choices, so that both
emit the same or both fail at corresponding places.
-/

namespace GraphTemplate

/-- From related states both steps give results that tally, and they end in related states. -/
def InStep {ε ε' σ τ α β : Type} (states : σ → τ → Prop) (faults : ε → ε' → Prop)
    (values : α → β → Prop) (step : ExceptT ε (StateM σ) α) (other : ExceptT ε' (StateM τ) β) :
    Prop :=
  ∀ state otherState, states state otherState →
    Tallies faults values (step.run.run state).1 (other.run.run otherState).1 ∧
      states (step.run.run state).2 (other.run.run otherState).2

namespace InStep

variable {ε ε' σ τ α β γ δ : Type} {states : σ → τ → Prop} {faults : ε → ε' → Prop}
  {values : α → β → Prop} {step : ExceptT ε (StateM σ) α} {other : ExceptT ε' (StateM τ) β}

theorem pure {value : α} {otherValue : β} (same : values value otherValue) :
    InStep states faults values (pure value : ExceptT ε (StateM σ) α)
      (pure otherValue : ExceptT ε' (StateM τ) β) :=
  fun _ _ related => ⟨.ok same, related⟩

theorem throw {fault : ε} {otherFault : ε'} (same : faults fault otherFault) :
    InStep states faults values (throw fault : ExceptT ε (StateM σ) α)
      (throw otherFault : ExceptT ε' (StateM τ) β) :=
  fun _ _ related => ⟨.error same, related⟩

theorem ofResult {result : Except ε α} {otherResult : Except ε' β}
    (tallies : Tallies faults values result otherResult) :
    InStep states faults values (ExceptT.mk (Pure.pure result) : ExceptT ε (StateM σ) α)
      (ExceptT.mk (Pure.pure otherResult) : ExceptT ε' (StateM τ) β) :=
  fun _ _ related => ⟨tallies, related⟩

theorem bind {nextValues : γ → δ → Prop} {next : α → ExceptT ε (StateM σ) γ}
    {otherNext : β → ExceptT ε' (StateM τ) δ} (first : InStep states faults values step other)
    (second : ∀ value otherValue, values value otherValue →
      InStep states faults nextValues (next value) (otherNext otherValue)) :
    InStep states faults nextValues (step >>= next) (other >>= otherNext) := by
  intro state otherState related
  rcases first state otherState related with ⟨tallies, stillRelated⟩
  rcases given : step.run.run state with ⟨result, reached⟩
  rcases otherGiven : other.run.run otherState with ⟨otherResult, otherReached⟩
  rw [given, otherGiven] at tallies stillRelated
  rcases tallies with @⟨value, otherValue, same⟩ | @⟨fault, otherFault, same⟩
  · rw [run_bind_of_ok next given, run_bind_of_ok otherNext otherGiven]
    exact second value otherValue same reached otherReached stillRelated
  · rw [run_bind_of_error next given, run_bind_of_error otherNext otherGiven]
    exact ⟨.error same, stillRelated⟩

theorem mono {weaker : α → β → Prop} (inStep : InStep states faults values step other)
    (follows : ∀ value otherValue, values value otherValue → weaker value otherValue) :
    InStep states faults weaker step other := by
  intro state otherState related
  rcases inStep state otherState related with ⟨tallies, stillRelated⟩
  exact ⟨tallies.mono (fun _ _ same => same) follows, stillRelated⟩

theorem map {mapped : γ → δ → Prop} {f : α → γ} {g : β → δ}
    (inStep : InStep states faults values step other)
    (follows : ∀ value otherValue, values value otherValue → mapped (f value) (g otherValue)) :
    InStep states faults mapped (f <$> step) (g <$> other) := by
  rw [map_eq_pure_bind, map_eq_pure_bind]
  exact inStep.bind fun value otherValue same => pure (follows value otherValue same)

theorem tryCatch {handler : ε → ExceptT ε (StateM σ) α} {otherHandler : ε' → ExceptT ε' (StateM τ) β}
    (inStep : InStep states faults values step other)
    (handled : ∀ fault otherFault, faults fault otherFault →
      InStep states faults values (handler fault) (otherHandler otherFault)) :
    InStep states faults values (tryCatch step handler) (tryCatch other otherHandler) := by
  intro state otherState related
  rcases inStep state otherState related with ⟨tallies, stillRelated⟩
  rcases given : step.run.run state with ⟨result, reached⟩
  rcases otherGiven : other.run.run otherState with ⟨otherResult, otherReached⟩
  rw [given, otherGiven] at tallies stillRelated
  rcases tallies with same | @⟨fault, otherFault, same⟩
  · rw [run_tryCatch_of_ok handler given, run_tryCatch_of_ok otherHandler otherGiven]
    exact ⟨.ok same, stillRelated⟩
  · rw [run_tryCatch_of_error handler given, run_tryCatch_of_error otherHandler otherGiven]
    exact handled fault otherFault same reached otherReached stillRelated

theorem mapM {items : γ → δ → Prop} {elements : List γ} {others : List δ}
    {f : γ → ExceptT ε (StateM σ) α} {g : δ → ExceptT ε' (StateM τ) β}
    (each : List.Forall₂ items elements others)
    (inStep : ∀ element other, items element other →
      InStep states faults values (f element) (g other)) :
    InStep states faults (List.Forall₂ values) (elements.mapM f) (others.mapM g) := by
  induction each with
  | nil => exact pure .nil
  | cons first _ ih =>
      rw [List.mapM_cons, List.mapM_cons]
      apply (inStep _ _ first).bind
      intro value otherValue same
      apply ih.bind
      intro later otherLater laterSame
      exact pure (.cons same laterSame)

theorem locate {spans : Span → Span → Prop} {faults : Fault → Fault → Prop}
    {search : ExceptT Fault (StateM σ) α} {otherSearch : ExceptT Fault (StateM τ) β}
    {span otherSpan : Span} (inStep : InStep states faults values search otherSearch)
    (place : spans span otherSpan) :
    InStep states (LocatedFault.Alike spans faults) values (Expansion.locate span search)
      (Expansion.locate otherSpan otherSearch) := by
  intro state otherState related
  rcases inStep state otherState related with ⟨tallies, stillRelated⟩
  rw [run_locate, run_locate]
  exact ⟨tallies.mapError fun _ _ same => ⟨same, place⟩, stillRelated⟩

end InStep

/-- Two resolvers that give the same answers in alike scopes, and what it takes to follow expansions
with them side by side: related states, faults and spans, and a likeness of the bound objects.  What
is answered may have a property. -/
structure Lockstep (σ τ : Type) where
  left : Resolver σ
  right : Resolver τ
  states : σ → τ → Prop
  faults : Fault → Fault → Prop
  spans : Span → Span → Prop
  objects : Object → Object → Prop
  scopes : Scope → Scope → Prop
  answered : Scope → String → Finding → Prop
  faults_refl : ∀ fault, faults fault fault
  category_eq : ∀ fault other, faults fault other → fault.SameCategory other
  likeness : Object.Likeness objects
  bindings : ∀ scope other, scopes scope other → List.Forall₂
    (fun binding other => binding.name = other.name ∧ objects binding.object other.object)
    scope.bindings other.bindings
  find : ∀ scope other name, scopes scope other →
    InStep states faults (fun finding other => finding = other ∧ answered scope name finding)
      (left.find scope name) (right.find other name)

/-- The scopes of a lockstep stay alike when elements are bound, those of relations that were
discovered and those of the relations of the given loops. -/
structure Lockstep.Persists {σ τ : Type} (c : Lockstep σ τ) (loops : String → String → Prop) :
    Prop where
  found : ∀ scope other name route elements element otherElement, c.scopes scope other →
    c.answered scope name (.relation route) → scope.elements route = .ok elements →
    element ∈ elements → c.objects element otherElement →
    c.scopes (scope.bind name element) (other.bind name otherElement)
  exposed : ∀ scope other relation name elements element otherElement, c.scopes scope other →
    loops relation name → scope.relation? relation = some elements → element ∈ elements →
    c.objects element otherElement →
    c.scopes (scope.bind name element) (other.bind name otherElement)

theorem Node.Alike.element {objects : Object → Object → Prop} {result other : Except Fault Node}
    (tallies : Tallies Eq (Node.Alike objects) result other) :
    Tallies Eq objects (Node.element result) (Node.element other) := by
  rcases tallies with ⟨same⟩ | ⟨same⟩
  · cases same with
    | object same => exact .ok same
    | value content => exact .error rfl
  · exact .error same

theorem Fault.category_eq_unresolved_iff {fault : Fault} :
    fault.category = .unresolved ↔ ∃ name plural, fault = .unresolvedName name plural := by
  cases fault <;> simp [Fault.category]

namespace Lockstep

variable {σ τ : Type} (c : Lockstep σ τ) {scope other : Scope}

theorem lookup? (same : c.scopes scope other) (name : String) :
    Option.Rel c.objects (scope.lookup? name) (other.lookup? name) := by
  have each := c.bindings _ _ same
  unfold Scope.lookup?
  generalize scope.bindings = bindings, other.bindings = others at each
  induction each with
  | nil => exact .none
  | cons first _ ih =>
      rw [List.find?_cons, List.find?_cons, ← first.1]
      split
      · exact .some first.2
      · exact ih

theorem relation? (same : c.scopes scope other) (relation : String) :
    Option.Rel (List.Forall₂ c.objects) (scope.relation? relation) (other.relation? relation) := by
  have each := c.bindings _ _ same
  unfold Scope.relation?
  generalize scope.bindings = bindings, other.bindings = others at each
  induction each with
  | nil => exact .none
  | @cons binding otherBinding _ _ first _ ih =>
      have alike := c.likeness.relation? first.2 relation
      rw [List.findSome?_cons, List.findSome?_cons]
      generalize binding.object.relation? relation = elements,
        otherBinding.object.relation? relation = otherElements at alike
      rcases alike with elementsSame | _
      · exact .some elementsSame
      · exact ih

theorem owner (same : c.scopes scope other) (route : Route) :
    Tallies Eq c.objects (scope.owner route) (other.owner route) := by
  have alike := c.lookup? same route.owner
  unfold Scope.owner
  generalize scope.lookup? route.owner = owner, other.lookup? route.owner = otherOwner at alike
  rcases alike with ownerSame | _
  · exact .ok ownerSame
  · exact .error rfl

theorem elements (same : c.scopes scope other) (route : Route) :
    Tallies Eq (List.Forall₂ c.objects) (scope.elements route) (other.elements route) := by
  apply (c.owner same route).bind
  intro owner otherOwner ownerSame
  apply Tallies.allOrError
  apply List.rel_map _ (c.likeness.reach ownerSame route.steps)
  exact fun _ _ tallies => Node.Alike.element tallies

/-- Of a discovered relation only such elements are bound that the scopes stay alike. -/
theorem boundElements {loops : String → String → Prop} (persists : c.Persists loops)
    (same : c.scopes scope other) {name : String} {route : Route}
    (answered : c.answered scope name (.relation route)) :
    Tallies Eq (List.Forall₂ fun element otherElement =>
        c.scopes (scope.bind name element) (other.bind name otherElement))
      (scope.elements route) (other.elements route) := by
  apply (c.elements same route).given.mono fun _ _ faultSame => faultSame
  rintro elements otherElements ⟨walked, each⟩
  have members := (List.forall₂_and_left _ _).mpr ⟨fun _ member => member, each⟩
  exact members.imp fun element otherElement both =>
    persists.found _ _ _ _ _ _ _ same answered walked both.1 both.2

/-- Drivers at corresponding places, with the same route. -/
structure DriverAlike {line otherLine : Line} (driver : Driver scope line)
    (otherDriver : Driver other otherLine) : Prop where
  ident : Ident.Alike c.spans driver.ident otherDriver.ident
  route : driver.route = otherDriver.route
  answered : c.answered scope driver.ident.name (.relation driver.route)

inductive StandingAlike {line otherLine : Line} :
    Standing scope line → Standing other otherLine → Prop where
  | text (content : String) : StandingAlike (.text content) (.text content)
  | anchored {placeholder otherPlaceholder : Placeholder} {owner otherOwner : Object}
      (steps : List String) (place : Placeholder.Alike c.spans placeholder otherPlaceholder)
      (same : c.objects owner otherOwner) :
      StandingAlike (.anchored ⟨placeholder, owner, steps⟩)
        (.anchored ⟨otherPlaceholder, otherOwner, steps⟩)
  | unbound {driver : Driver scope line} {otherDriver : Driver other otherLine}
      (same : c.DriverAlike driver otherDriver) : StandingAlike (.unbound driver) (.unbound otherDriver)

section

variable {line otherLine : Line} {standings : List (Standing scope line)}
  {otherStandings : List (Standing other otherLine)}

theorem drivers (each : List.Forall₂ c.StandingAlike standings otherStandings) :
    List.Forall₂ c.DriverAlike (standings.filterMap Standing.driver?)
      (otherStandings.filterMap Standing.driver?) := by
  apply List.rel_filterMap _ each
  rintro _ _ (_ | _ | same)
  · exact .none
  · exact .none
  · exact .some same

theorem shortest? {drivers : List (Driver scope line)} {otherDrivers : List (Driver other otherLine)}
    (each : List.Forall₂ c.DriverAlike drivers otherDrivers) :
    Option.Rel c.DriverAlike (Driver.shortest? drivers) (Driver.shortest? otherDrivers) := by
  induction each with
  | nil => exact .none
  | @cons _ _ rest otherRest first _ ih =>
      simp only [Driver.shortest?]
      generalize Driver.shortest? rest = shortest, Driver.shortest? otherRest = otherShortest at ih
      rcases ih with shortestSame | _
      · simp only [first.route, shortestSame.route]
        split
        · exact .some shortestSame
        · exact .some first
      · exact .some first

theorem anchorText {placeholder otherPlaceholder : Placeholder} {owner otherOwner : Object}
    (steps : List String) (place : Placeholder.Alike c.spans placeholder otherPlaceholder)
    (same : c.objects owner otherOwner) :
    Tallies (LocatedFault.Alike c.spans Eq) Eq (Anchor.text ⟨placeholder, owner, steps⟩)
      (Anchor.text ⟨otherPlaceholder, otherOwner, steps⟩) := by
  have discovered : List.Forall₂ (Ident.Alike c.spans)
      (steps.map fun name => ⟨name, placeholder.span⟩)
      (steps.map fun name => ⟨name, otherPlaceholder.span⟩) :=
    List.forall₂_map_left_iff.mpr (List.forall₂_map_right_iff.mpr
      (List.forall₂_same.mpr fun _ _ => ⟨rfl, place.span⟩))
  apply (c.likeness.follow same (List.rel_append discovered place.path)).bind
  intro attr otherAttr attrSame
  rw [attrSame.text?_eq, attrSame.kind_eq]
  split
  · exact .ok rfl
  · exact .error ⟨rfl, place.span⟩

theorem emit (each : List.Forall₂ c.StandingAlike standings otherStandings) :
    Tallies (LocatedFault.Alike c.spans Eq) Eq (Line.emit standings) (Line.emit otherStandings) := by
  have texts : List.Forall₂ (Tallies (LocatedFault.Alike c.spans Eq) Eq)
      (standings.filterMap Standing.emit?) (otherStandings.filterMap Standing.emit?) := by
    apply List.rel_filterMap _ each
    rintro _ _ (content | ⟨steps, place, same⟩ | _)
    · exact .some (.ok rfl)
    · exact .some (c.anchorText steps place same)
    · exact .none
  apply (Tallies.allOrError texts).bind
  intro found otherFound same
  rw [List.forall₂_eq_eq_eq] at same
  exact .ok (congrArg String.join same)

end

theorem faults_of_eq {fault otherFault : Fault} (same : fault = otherFault) :
    c.faults fault otherFault :=
  same ▸ c.faults_refl fault

theorem locatedFault_alike {located otherLocated : LocatedFault}
    (alike : LocatedFault.Alike c.spans Eq located otherLocated) :
    LocatedFault.Alike c.spans c.faults located otherLocated :=
  ⟨c.faults_of_eq alike.fault, alike.span⟩

theorem standing {line otherLine : Line} (same : c.scopes scope other)
    (part : { part : Part // part ∈ line.parts })
    (otherPart : { part : Part // part ∈ otherLine.parts })
    (alike : Part.Alike c.spans part.val otherPart.val) :
    InStep c.states (LocatedFault.Alike c.spans c.faults) c.StandingAlike
      (line.standing c.left scope part) (otherLine.standing c.right other otherPart) := by
  rcases part with ⟨part, member⟩
  rcases otherPart with ⟨otherPart, otherMember⟩
  rcases alike with content | @⟨placeholder, otherPlaceholder, place⟩
  · exact InStep.pure (.text content)
  · have meaning := c.lookup? same placeholder.root.name
    simp only [Line.standing]
    split
    · rename_i object bound
      split
      · rename_i otherObject otherBound
        rw [bound, place.root.name, otherBound] at meaning
        rcases meaning with ⟨objectSame⟩
        exact InStep.pure (.anchored [] place objectSame)
      · rename_i otherUnbound
        rw [bound, place.root.name, otherUnbound] at meaning
        cases meaning
    · rename_i unbound
      split
      · rename_i otherObject otherBound
        rw [unbound, place.root.name, otherBound] at meaning
        cases meaning
      · apply InStep.locate _ place.root.span
        have found : InStep c.states c.faults
            (fun finding other => finding = other ∧ c.answered scope placeholder.root.name finding)
            (c.left.find scope placeholder.root.name)
            (c.right.find other otherPlaceholder.root.name) := by
          rw [← place.root.name]
          exact c.find scope other placeholder.root.name same
        apply found.bind
        rintro finding _ ⟨rfl, answered⟩
        rcases finding with route | route
        · exact InStep.pure (.unbound ⟨place.root, rfl, answered⟩)
        · have owners := (c.owner same route).mono
            (fun _ _ => c.faults_of_eq) fun _ _ objectSame => objectSame
          apply (InStep.ofResult owners).bind
          intro owner otherOwner ownerSame
          exact InStep.pure (.anchored route.steps place ownerSame)

theorem standings {line otherLine : Line} (same : c.scopes scope other)
    (alike : Line.Alike c.spans line otherLine) :
    InStep c.states (LocatedFault.Alike c.spans c.faults) (List.Forall₂ c.StandingAlike)
      (line.standings c.left scope) (otherLine.standings c.right other) := by
  have parts : List.Forall₂ (fun part otherPart => Part.Alike c.spans part.val otherPart.val)
      line.parts.attach otherLine.parts.attach := by
    have each := alike
    unfold Line.Alike at each
    rw [← List.attach_map_subtype_val line.parts, ← List.attach_map_subtype_val otherLine.parts,
      List.forall₂_map_left_iff, List.forall₂_map_right_iff] at each
    exact each
  exact InStep.mapM parts fun part otherPart partAlike => c.standing same part otherPart partAlike

/-- The same names are unbound, and the texts of the lines are related if there is none. -/
structure StandingsAlike (texts : String → String → Prop) {line otherLine : Line}
    (standings : List (Standing scope line)) (otherStandings : List (Standing other otherLine)) :
    Prop where
  drivers : List.Forall₂ c.DriverAlike (standings.filterMap Standing.driver?)
    (otherStandings.filterMap Standing.driver?)
  emitted : Tallies (LocatedFault.Alike c.spans Eq) texts (Line.emit standings)
    (Line.emit otherStandings)

/-- In alike scopes the standings of two lines are found in step and are alike. -/
def LinesInStep (texts : String → String → Prop) (line otherLine : Line) : Prop :=
  ∀ ⦃scope other : Scope⦄, c.scopes scope other →
    InStep c.states (LocatedFault.Alike c.spans c.faults) (c.StandingsAlike texts)
      (line.standings c.left scope) (otherLine.standings c.right other)

theorem linesInStep_of_alike {line otherLine : Line} (alike : Line.Alike c.spans line otherLine) :
    c.LinesInStep Eq line otherLine :=
  fun _ _ same => (c.standings same alike).mono fun _ _ each => ⟨c.drivers each, c.emit each⟩

section

variable {texts : String → String → Prop} {lines otherLines : List Line}

theorem goesDeeper {line otherLine : Line} (same : c.scopes scope other)
    (inStep : c.LinesInStep texts line otherLine) (route : Route) (isEmpty : Bool) :
    InStep c.states (LocatedFault.Alike c.spans c.faults) Eq
      (line.goesDeeper c.left scope route isEmpty)
      (otherLine.goesDeeper c.right other route isEmpty) := by
  apply InStep.tryCatch
  · apply (inStep same).bind
    intro standings otherStandings each
    apply InStep.pure
    have drivers := each.drivers
    generalize standings.filterMap Standing.driver? = found,
      otherStandings.filterMap Standing.driver? = otherFound at drivers
    induction drivers with
    | nil => rfl
    | cons first _ ih => rw [List.any_cons, List.any_cons, first.route, ih]
  · intro located otherLocated locatedSame
    have category := c.category_eq _ _ locatedSame.fault
    unfold Fault.SameCategory at category
    split
    · rename_i unresolved
      rw [unresolved, eq_comm, Fault.category, Fault.category_eq_unresolved_iff] at category
      rcases category with ⟨otherName, otherPlural, otherUnresolved⟩
      simp only [otherUnresolved]
      exact InStep.pure rfl
    · rename_i resolved
      split
      · rename_i otherUnresolved
        rw [otherUnresolved, Fault.category, Fault.category_eq_unresolved_iff] at category
        rcases category with ⟨name, plural, unresolved⟩
        exact (resolved name plural unresolved).elim
      · exact InStep.throw locatedSame

theorem countDeeper (same : c.scopes scope other)
    (inStep : List.Forall₂ (c.LinesInStep texts) lines otherLines) (route : Route)
    (isEmpty : Bool) :
    InStep c.states (LocatedFault.Alike c.spans c.faults) Eq
      (Line.countDeeper c.left scope route isEmpty lines)
      (Line.countDeeper c.right other route isEmpty otherLines) := by
  induction inStep with
  | nil => exact InStep.pure rfl
  | cons first _ ih =>
      simp only [Line.countDeeper]
      apply (c.goesDeeper same first route isEmpty).bind
      rintro deeper _ rfl
      cases deeper with
      | true =>
          apply ih.bind
          rintro count _ rfl
          exact InStep.pure rfl
      | false => exact InStep.pure rfl

/-- Lines whose standings are found in step expand to related texts and to separators at the same
places. -/
theorem expandPieces {loops : String → String → Prop} (persists : c.Persists loops)
    (same : c.scopes scope other)
    (inStep : List.Forall₂ (c.LinesInStep texts) lines otherLines) :
    InStep c.states (LocatedFault.Alike c.spans c.faults) (List.Forall₂ (Option.Rel texts))
      (Line.expandPieces c.left scope lines) (Line.expandPieces c.right other otherLines) := by
  induction scope, lines using Line.expandPieces.induct generalizing other otherLines with
  | case1 scope =>
      cases inStep
      rw [Line.expandPieces, Line.expandPieces]
      exact InStep.pure .nil
  | case2 scope line rest emitted repeated later =>
      rcases inStep with _ | @⟨_, otherLine, _, otherRest, first, restInStep⟩
      rw [Line.expandPieces, Line.expandPieces]
      apply (first same).bind
      intro standings otherStandings each
      have shortest := c.shortest? each.drivers
      generalize chosen : Driver.shortest? (standings.filterMap Standing.driver?) = driver?,
        Driver.shortest? (otherStandings.filterMap Standing.driver?) = otherDriver? at shortest
      rcases shortest with @⟨driver, otherDriver, driverSame⟩ | _
      · dsimp only
        rw [← driverSame.route, ← driverSame.ident.name]
        have located : ∀ fault otherFault, fault = otherFault →
            LocatedFault.Alike c.spans c.faults ⟨fault, driver.ident.span⟩
              ⟨otherFault, otherDriver.ident.span⟩ :=
          fun _ _ faultSame => c.locatedFault_alike ⟨faultSame, driverSame.ident.span⟩
        have walked := (c.boundElements persists same driverSame.answered).mapError located
        apply (InStep.ofResult walked).bind
        intro elements otherElements bound
        have lengths : elements.isEmpty = otherElements.isEmpty := by
          rcases bound with _ | _ <;> rfl
        rw [← lengths]
        apply (c.countDeeper same restInStep driver.route elements.isEmpty).bind
        rintro count _ rfl
        have group := List.Forall₂.cons first (List.forall₂_take count restInStep)
        apply (InStep.mapM bound fun element otherElement alike =>
          repeated driver count element alike group).bind
        intro blocks otherBlocks blocksSame
        apply (later count same (List.forall₂_drop count restInStep)).bind
        intro pieces otherPieces piecesSame
        have between : List.Forall₂ (Option.Rel texts) (if count = 0 then [] else [none])
            (if count = 0 then [] else [none]) := by
          split
          · exact .nil
          · exact .cons .none .nil
        exact InStep.pure (List.rel_append (rel_intercalate between blocksSame) piecesSame)
      · apply (InStep.ofResult (each.emitted.mono (fun _ _ => c.locatedFault_alike)
          fun _ _ same => same)).bind
        intro text otherText textSame
        apply (emitted same restInStep).bind
        intro pieces otherPieces piecesSame
        exact InStep.pure (.cons (.some textSame) piecesSame)

end

/-- Alike lines expand alike in alike scopes. -/
theorem expandRun {loops : String → String → Prop} (persists : c.Persists loops) (separator : String)
    {lines otherLines : List Line} (same : c.scopes scope other)
    (alike : List.Forall₂ (Line.Alike c.spans) lines otherLines) :
    InStep c.states (LocatedFault.Alike c.spans c.faults) Eq
      (Line.expandRun c.left separator scope lines)
      (Line.expandRun c.right separator other otherLines) := by
  rw [Line.expandRun_eq_fillIn, Line.expandRun_eq_fillIn]
  apply (c.expandPieces persists same (alike.imp fun _ _ => c.linesInStep_of_alike)).map
  exact fun _ _ => fillIn_eq_of_rel_eq separator

theorem loopElements {loops : String → String → Prop} (persists : c.Persists loops)
    {relation otherRelation : Ident} (element : String) (same : c.scopes scope other)
    (place : Ident.Alike c.spans relation otherRelation) (known : loops relation.name element) :
    InStep c.states (LocatedFault.Alike c.spans c.faults)
      (List.Forall₂ fun object otherObject =>
        c.scopes (scope.bind element object) (other.bind element otherObject))
      (Body.loopElements c.left scope relation element)
      (Body.loopElements c.right other otherRelation element) := by
  have exposed := c.relation? same relation.name
  unfold Body.loopElements
  rw [← place.name]
  generalize found : scope.relation? relation.name = elements?,
    other.relation? relation.name = otherElements? at exposed
  rcases exposed with @⟨elements, otherElements, each⟩ | _
  · apply InStep.pure
    have members := (List.forall₂_and_left _ _).mpr ⟨fun _ member => member, each⟩
    exact members.imp fun object otherObject both =>
      persists.exposed _ _ _ _ _ _ _ same known found both.1 both.2
  · apply InStep.locate _ place.span
    apply (c.find scope other element same).bind
    rintro finding _ ⟨rfl, answered⟩
    rcases finding with route | route
    · exact InStep.ofResult ((c.boundElements persists same answered).mono
        (fun _ _ => c.faults_of_eq) fun _ _ each => each)
    · exact InStep.throw (c.faults_refl _)

/-- Bodies that match expand to related texts and to separators at the same places. -/
theorem expandPiecesAfter {loops : String → String → Prop} (persists : c.Persists loops)
    {texts : String → String → Prop} {body otherBody : Body} {run otherRun : List Line}
    (same : c.scopes scope other) (inStep : List.Forall₂ (c.LinesInStep texts) run otherRun)
    (alike : Body.Matches c.spans (c.LinesInStep texts) texts body otherBody)
    (known : ∀ loop ∈ body.loops, loops loop.1 loop.2) :
    InStep c.states (LocatedFault.Alike c.spans c.faults) (List.Forall₂ (Option.Rel texts))
      (body.expandPiecesAfter c.left scope run) (otherBody.expandPiecesAfter c.right other otherRun) := by
  induction alike generalizing scope other run otherRun with
  | nil => exact c.expandPieces persists same inStep
  | text _ _ textSame _ ih =>
      simp only [Body.expandPiecesAfter]
      apply (c.expandPieces persists same inStep).bind
      intro before otherBefore beforeSame
      apply (ih same .nil known).bind
      intro after otherAfter afterSame
      exact InStep.pure (List.rel_append beforeSame (.cons (.some textSame) afterSame))
  | line content _ ih =>
      exact ih same (List.rel_append inStep (.cons content .nil)) known
  | loop element place _ _ innerIh restIh =>
      simp only [Body.loops, List.cons_append, List.mem_cons, List.mem_append] at known
      simp only [Body.expandPiecesAfter]
      apply (c.expandPieces persists same inStep).bind
      intro before otherBefore beforeSame
      apply (c.loopElements persists element same place (known _ (Or.inl rfl))).bind
      intro elements otherElements bound
      apply (InStep.mapM bound fun object otherObject stillSame => innerIh stillSame .nil
        fun loop member => known loop (Or.inr (Or.inl member))).bind
      intro blocks otherBlocks blocksSame
      apply (restIh same .nil fun loop member => known loop (Or.inr (Or.inr member))).bind
      intro after otherAfter afterSame
      exact InStep.pure (List.rel_append (List.rel_append beforeSame (List.rel_flatten blocksSame))
        afterSame)

/-- Alike bodies expand alike in alike scopes. -/
theorem expandAfter {loops : String → String → Prop} (persists : c.Persists loops)
    (separator : String) {body otherBody : Body} {run otherRun : List Line}
    (same : c.scopes scope other) (runAlike : List.Forall₂ (Line.Alike c.spans) run otherRun)
    (alike : Body.Alike c.spans body otherBody)
    (known : ∀ loop ∈ body.loops, loops loop.1 loop.2) :
    InStep c.states (LocatedFault.Alike c.spans c.faults) Eq
      (body.expandAfter c.left separator scope run)
      (otherBody.expandAfter c.right separator other otherRun) := by
  rw [Body.expandAfter_eq_fillIn, Body.expandAfter_eq_fillIn]
  apply (c.expandPiecesAfter persists same (runAlike.imp fun _ _ => c.linesInStep_of_alike)
    (alike.matches fun _ _ => c.linesInStep_of_alike) known).map
  exact fun _ _ => fillIn_eq_of_rel_eq separator

end Lockstep

end GraphTemplate
