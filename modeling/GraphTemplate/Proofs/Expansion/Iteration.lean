import GraphTemplate.Proofs.Expansion.Recall
import Mathlib.Tactic.ByContra

/-!
# Iteration along legs

A line whose unbound names are those of some legs is repeated for the elements of the first leg, and
within each repetition for the elements of the next.  What one repetition does is stated for lines
in general; that the repetitions follow the legs is shown by induction on the legs.
-/

namespace GraphTemplate

/-- The memory holds the routes of all names of the legs, whichever elements are bound on the way. -/
def Knows : Legs → Scope → Memory → Prop
  | [], _, _ => True
  | (name, steps) :: rest, scope, memory =>
      Recalls ((name, steps) :: rest) (Legs.names ((name, steps) :: rest)) scope memory ∧
        ∀ element, Knows rest (scope.bind name element) memory

/-- The names of the legs are settled as long as first elements are bound; where there is no element,
their routes are known. -/
def Ready : Legs → Scope → Memory → Prop
  | [], _, _ => True
  | (name, steps) :: rest, scope, memory =>
      Settles ((name, steps) :: rest) scope memory ∧
        ∀ elements, scope.innermost.object.elementsAlong? steps = some elements →
          match elements with
          | [] => ∀ element, Knows rest (scope.bind name element) memory
          | first :: _ => Ready rest (scope.bind name first) memory

/-- What is ready when elements are about to be bound to a name. -/
def ReadyFor (name : String) (elements : List Object) (rest : Legs) (scope : Scope)
    (memory : Memory) : Prop :=
  match elements with
  | [] => ∀ element, Knows rest (scope.bind name element) memory
  | first :: _ => Ready rest (scope.bind name first) memory

/-- What is ready when the first leg is about to be walked. -/
def ReadyAlong (name : String) (steps : List String) (rest : Legs) (scope : Scope)
    (memory : Memory) : Prop :=
  ∀ elements, scope.innermost.object.elementsAlong? steps = some elements →
    ReadyFor name elements rest scope memory

theorem ready_cons {name : String} {steps : List String} {rest : Legs} {scope : Scope}
    {memory : Memory} : Ready ((name, steps) :: rest) scope memory ↔
      Settles ((name, steps) :: rest) scope memory ∧ ReadyAlong name steps rest scope memory :=
  Iff.rfl

namespace Knows

theorem of_sameNames {legs : Legs} {scope other : Scope} {memory : Memory}
    (knows : Knows legs scope memory) (same : scope.SameNames other) :
    Knows legs other memory := by
  induction legs generalizing scope other with
  | nil => trivial
  | cons leg rest ih =>
      rcases leg with ⟨name, steps⟩
      exact ⟨knows.1.of_sameNames same, fun element =>
        ih (knows.2 element) (same.bind name element element)⟩

theorem ready {legs : Legs} {scope : Scope} {memory : Memory} (knows : Knows legs scope memory) :
    Ready legs scope memory := by
  induction legs generalizing scope with
  | nil => trivial
  | cons leg rest ih =>
      rcases leg with ⟨name, steps⟩
      refine ready_cons.mpr ⟨knows.1.settles, ?_⟩
      intro elements _
      rcases elements with _ | ⟨first, others⟩
      · exact knows.2
      · exact ih (knows.2 first)

end Knows

namespace Spares

variable {innermost : List String}

theorem knows (legs : Legs) (scope : Scope) (apart : scope.innermost.name ∉ innermost)
    (legsApart : ∀ name ∈ legs.names, name ∉ innermost) : Spares innermost (Knows legs scope) := by
  induction legs generalizing scope with
  | nil => exact fun _ _ _ _ _ => trivial
  | cons leg rest ih =>
      rcases leg with ⟨name, steps⟩
      simp only [Legs.names, List.map_cons, List.forall_mem_cons] at legsApart
      intro memory question finding member holds
      refine ⟨recalls apart _ _ _ member holds.1, ?_⟩
      intro element
      have next := ih (scope.bind name element) legsApart.1 legsApart.2
      exact next _ _ _ member (holds.2 element)

theorem ready (legs : Legs) (scope : Scope) (apart : scope.innermost.name ∉ innermost)
    (legsApart : ∀ name ∈ legs.names, name ∉ innermost) : Spares innermost (Ready legs scope) := by
  induction legs generalizing scope with
  | nil => exact fun _ _ _ _ _ => trivial
  | cons leg rest ih =>
      rcases leg with ⟨name, steps⟩
      simp only [Legs.names, List.map_cons, List.forall_mem_cons] at legsApart
      rintro memory question finding member ⟨settled, further⟩
      refine ready_cons.mpr ⟨settles apart _ _ _ member settled, ?_⟩
      intro elements along
      have holds := further elements along
      rcases elements with _ | ⟨first, others⟩
      · intro element
        have next := knows rest (scope.bind name element) legsApart.1 legsApart.2
        exact next _ _ _ member (holds element)
      · exact ih (scope.bind name first) legsApart.1 legsApart.2 _ _ _ member holds

theorem readyAlong {name : String} {steps : List String} {legs : Legs} {scope : Scope}
    (apart : name ∉ innermost)
    (legsApart : ∀ name ∈ legs.names, name ∉ innermost) :
    Spares innermost (ReadyAlong name steps legs scope) := by
  intro memory question finding member further elements along
  have holds := further elements along
  rcases elements with _ | ⟨first, others⟩
  · intro element
    have next := knows legs (scope.bind name element) apart legsApart
    exact next _ _ _ member (holds element)
  · have next := ready legs (scope.bind name first) apart legsApart
    exact next _ _ _ member holds

end Spares

theorem Node.toOption_element (item : Except Fault Node) :
    (Node.element item).toOption = Node.object? item := by
  rcases item with fault | (content | content) <;> rfl

theorem Scope.toOption_elements (scope : Scope) (steps : List String) :
    (scope.elements ⟨scope.innermost.name, steps⟩).toOption =
      scope.innermost.object.elementsAlong? steps := by
  have each : Except.toOption ∘ Node.element = Node.object? := funext Node.toOption_element
  simp only [elements, owner, lookup?_innermost, Bind.bind, Except.bind]
  rw [toOption_allOrError, List.mapM_map, each, Object.elementsAlong?_eq_mapM_reach]

/-- The names that a line uses are bound, or they are names of the legs, the first among them. -/
structure Line.Follows (line : Line) (name : String) (rest : Legs) (scope : Scope) : Prop where
  mentions : name ∈ line.roots
  unbound : scope.lookup? name = none
  covers : ∀ other ∈ line.roots, scope.lookup? other = none → other ∈ name :: rest.names
  longer : ∀ leg ∈ rest, leg.2 ≠ []

theorem Line.Follows.exists_shortest {line : Line} {name : String} {rest : Legs} {scope : Scope}
    (follows : line.Follows name rest scope) (steps : List String) :
    ∃ driver, Driver.shortest?
        ((standingsBy (scope.routeAlong ((name, steps) :: rest)) scope line).filterMap
          Standing.driver?) = some driver ∧
      driver.ident.name = name ∧ driver.route = ⟨scope.innermost.name, steps⟩ := by
  rcases exists_driver (scope.routeAlong ((name, steps) :: rest)) follows.mentions
    follows.unbound with ⟨first, firstMem, firstName⟩
  rcases Driver.exists_shortest? (List.ne_nil_of_mem firstMem) with
    ⟨driver, shortest, member, least⟩
  have firstRoute : first.route = ⟨scope.innermost.name, steps⟩ := by
    rw [route_of_mem_drivers firstMem, firstName, Scope.routeAlong, routeAlong, if_pos rfl,
      List.nil_append]
  have route := route_of_mem_drivers member
  -- A later name has a longer route than the first, since its leg adds steps.
  have same : driver.ident.name = name := by
    by_contra different
    have later : driver.ident.name ∈ rest.names := by
      simpa [different] using follows.covers _ driver.mem_roots driver.unbound
    have longer := length_lt_routeAlong name [] follows.longer later
    have short := least first firstMem
    rw [Scope.routeAlong, routeAlong_cons_of_ne rest (Ne.symm different)] at route
    rw [firstRoute, route] at short
    simp only [Route.names, List.length_cons, List.length_append, List.length_nil] at short longer
    omega
  refine ⟨driver, shortest, same, ?_⟩
  rw [route, same, Scope.routeAlong, routeAlong, if_pos rfl, List.nil_append]

namespace Yields

variable {line : Line} {rest : List Line} {scope : Scope} {separator : String}
  {frame after : Memory → Prop}

theorem expandRun_nil {σ : Type} {resolver : Resolver σ} {condition : σ → Prop} :
    Yields condition (Line.expandRun resolver separator scope []) (some []) condition := by
  rw [Line.expandRun]
  exact Yields.pure []

theorem expandRun_bound {others : Option (List String)}
    (bound : ∀ name ∈ line.roots, scope.lookup? name ≠ none)
    (further : Yields frame (Line.expandRun Resolver.remembering separator scope rest) others after) :
    Yields frame (Line.expandRun Resolver.remembering separator scope (line :: rest))
      (do let text ← line.textIn scope.lookup?
          let texts ← others
          return text :: texts) after := by
  rw [Line.expandRun, Line.standings_of_bound (scope.routeAlong []) bound, pure_bind,
    Line.drivers_eq_nil bound]
  simp only [Driver.shortest?]
  rw [← Line.toOption_emit (scope.routeAlong []) bound]
  apply (Yields.ofExcept _).bind
  intro text _
  apply further.bind
  intro texts _
  exact Yields.pure _

/-- A line with unbound names is repeated for the elements of the first leg, together with the lines
after it if all of them go deeper. -/
theorem expandRun_driven {name : String} {steps : List String} {legs : Legs}
    {counted : Memory → Prop} {block : Object → Option (List String)}
    (follows : line.Follows name legs scope) (spares : Spares [scope.innermost.name] frame)
    (deeper : ∀ isEmpty, Yields
      (fun memory => Settles ((name, steps) :: legs) scope memory ∧
        Recalls ((name, steps) :: legs) (line.unboundRoots scope) scope memory ∧ frame memory)
      (Line.countDeeper Resolver.remembering scope ⟨scope.innermost.name, steps⟩ isEmpty rest)
      (some rest.length) counted)
    (blocks : ∀ elements, scope.innermost.object.elementsAlong? steps = some elements →
      Yields counted
        (elements.mapM fun element =>
          Line.expandRun Resolver.remembering separator (scope.bind name element) (line :: rest))
        (elements.mapM block) after) :
    Yields (fun memory => Settles ((name, steps) :: legs) scope memory ∧ frame memory)
      (Line.expandRun Resolver.remembering separator scope (line :: rest))
      (do let elements ← scope.innermost.object.elementsAlong? steps
          let blocks ← elements.mapM block
          return (if rest = [] then [] else [separator]).intercalate blocks)
      after := by
  rcases follows.exists_shortest steps with ⟨driver, shortest, driverName, driverRoute⟩
  rw [Line.expandRun]
  apply (Yields.standings follows.covers spares).andThen
  rw [shortest]
  simp only [driverName, driverRoute]
  rw [← Scope.toOption_elements,
    ← toOption_mapError fun fault => LocatedFault.mk fault driver.ident.span]
  apply (Yields.ofExcept _).bind
  intro elements found
  rw [toOption_mapError, Scope.toOption_elements] at found
  apply (deeper elements.isEmpty).andThen
  simp only [List.take_length, List.drop_length, List.length_eq_zero_iff]
  apply (blocks elements found).bind
  intro texts _
  apply expandRun_nil.andThen
  rw [List.append_nil]
  exact Yields.pure _

/-- The elements of a leg are bound one after the other.  What the first makes known serves for the
others. -/
theorem mapM_elements {name : String} {elements : List Object} {legs : Legs}
    {run : Object → Expansion Memory (List String)} {block : Object → Option (List String)}
    (each : ∀ element, Yields
      (fun memory => Ready legs (scope.bind name element) memory ∧ frame memory) (run element)
      (block element)
      (fun memory => Knows legs (scope.bind name element) memory ∧ frame memory)) :
    Yields (fun memory => ReadyFor name elements legs scope memory ∧ frame memory)
      (elements.mapM run) (elements.mapM block)
      (fun memory => (∀ element, Knows legs (scope.bind name element) memory) ∧ frame memory) := by
  have known : ∀ element, Yields
      (fun memory => (∀ other, Knows legs (scope.bind name other) memory) ∧ frame memory)
      (run element) (block element)
      (fun memory => (∀ other, Knows legs (scope.bind name other) memory) ∧ frame memory) := by
    intro element
    apply (each element).consequence
    · exact fun memory holds => ⟨(holds.1 element).ready, holds.2⟩
    · intro memory holds
      refine ⟨fun other => holds.1.of_sameNames ?_, holds.2⟩
      exact Scope.SameNames.bind rfl name element other
  rcases elements with _ | ⟨first, others⟩
  · exact Yields.pure []
  · have started : Yields (fun memory => Ready legs (scope.bind name first) memory ∧ frame memory)
        (run first) (block first)
        (fun memory => (∀ other, Knows legs (scope.bind name other) memory) ∧ frame memory) := by
      apply (each first).consequence (fun _ holds => holds)
      intro memory holds
      refine ⟨fun other => holds.1.of_sameNames ?_, holds.2⟩
      exact Scope.SameNames.bind rfl name first other
    rw [List.mapM_cons, List.mapM_cons]
    apply started.bind
    intro texts _
    apply (Yields.mapM fun element _ => known element).bind
    intro blocks _
    exact Yields.pure _

end Yields

theorem intercalate_nil_eq_flatten {α : Type} (blocks : List (List α)) :
    [].intercalate blocks = blocks.flatten := by
  induction blocks with
  | nil => rfl
  | cons block rest ih =>
      rcases rest with _ | ⟨second, more⟩
      · simp
      · rw [List.intercalate_cons_cons, ih]
        simp

theorem flatMapM_eq_mapM_flatten {α β : Type} (items : List α) (f : α → Option (List β)) :
    items.flatMapM f = (do
      let blocks ← items.mapM f
      return blocks.flatten) := by
  induction items with
  | nil => rfl
  | cons item rest ih =>
      rw [List.mapM_cons, List.flatMapM_cons, ih]
      cases f item with
      | none => rfl
      | some found => cases rest.mapM f <;> rfl

/-- The texts of a line that is repeated along legs. -/
def Line.textsAlong (line : Line) : Legs → Scope → Option (List String)
  | [], scope => (line.textIn scope.lookup?).map ([·])
  | (name, steps) :: rest, scope => do
      let elements ← scope.innermost.object.elementsAlong? steps
      elements.flatMapM fun element => line.textsAlong rest (scope.bind name element)

theorem Line.textsAlong_nil (line : Line) (scope : Scope) :
    line.textsAlong [] scope = (do
      let text ← line.textIn scope.lookup?
      let texts ← some []
      return text :: texts) := by
  rw [textsAlong]
  cases line.textIn scope.lookup? <;> rfl

theorem Line.textsAlong_cons (line : Line) (name : String) (steps : List String) (rest : Legs)
    (scope : Scope) : line.textsAlong ((name, steps) :: rest) scope = (do
      let elements ← scope.innermost.object.elementsAlong? steps
      let blocks ← elements.mapM fun element => line.textsAlong rest (scope.bind name element)
      return [].intercalate blocks) := by
  simp only [textsAlong, flatMapM_eq_mapM_flatten, intercalate_nil_eq_flatten]

/-- The names of the legs are those that a line uses and a scope does not bind, each once. -/
structure Line.Fits (line : Line) (legs : Legs) (scope : Scope) : Prop where
  covers : ∀ name ∈ line.roots, scope.lookup? name = none → name ∈ legs.names
  mentions : ∀ name ∈ legs.names, name ∈ line.roots
  unbound : ∀ name ∈ legs.names, scope.lookup? name = none
  nodup : legs.names.Nodup
  longer : ∀ leg ∈ legs, leg.2 ≠ []

namespace Line.Fits

variable {line : Line} {name : String} {steps : List String} {rest : Legs} {scope : Scope}

theorem follows (fits : line.Fits ((name, steps) :: rest) scope) :
    line.Follows name rest scope where
  mentions := fits.mentions name List.mem_cons_self
  unbound := fits.unbound name List.mem_cons_self
  covers := fits.covers
  longer leg member := fits.longer leg (List.mem_cons_of_mem _ member)

theorem bind (fits : line.Fits ((name, steps) :: rest) scope) (element : Object) :
    line.Fits rest (scope.bind name element) := by
  have nodup := fits.nodup
  simp only [Legs.names, List.map_cons, List.nodup_cons] at nodup
  constructor
  · intro other member unbound
    rw [Scope.lookup?_bind] at unbound
    split at unbound
    · cases unbound
    · rename_i different
      simpa [Legs.names, Ne.symm different] using fits.covers other member unbound
  · exact fun other member => fits.mentions other (List.mem_cons_of_mem _ member)
  · intro other member
    have different : name ≠ other := by
      rintro rfl
      exact nodup.1 member
    rw [Scope.lookup?_bind, if_neg different]
    exact fits.unbound other (List.mem_cons_of_mem _ member)
  · exact nodup.2
  · exact fun leg member => fits.longer leg (List.mem_cons_of_mem _ member)

theorem innermost_ne {legs : Legs} (fits : line.Fits legs scope) :
    ∀ other ∈ legs.names, other ≠ scope.innermost.name :=
  fun other member => Scope.ne_innermost_of_unbound (fits.unbound other member)

theorem spares_readyAlong (fits : line.Fits ((name, steps) :: rest) scope) :
    Spares [scope.innermost.name] (ReadyAlong name steps rest scope) := by
  apply Spares.readyAlong
  · simpa using fits.innermost_ne name List.mem_cons_self
  · intro other otherMem
    simpa using fits.innermost_ne other (List.mem_cons_of_mem _ otherMem)

end Line.Fits

namespace Yields

variable {line : Line} {scope : Scope} {separator : String} {frame : Memory → Prop}

theorem mapM_expandRun {name : String} {steps : List String} {rest : Legs} {elements : List Object}
    (fits : line.Fits ((name, steps) :: rest) scope)
    (along : scope.innermost.object.elementsAlong? steps = some elements)
    (each : ∀ element, Yields
      (fun memory => Ready rest (scope.bind name element) memory ∧
        Recalls ((name, steps) :: rest) (line.unboundRoots scope) scope memory ∧ frame memory)
      (Line.expandRun Resolver.remembering separator (scope.bind name element) [line])
      (line.textsAlong rest (scope.bind name element))
      (fun memory => Knows rest (scope.bind name element) memory ∧
        Recalls ((name, steps) :: rest) (line.unboundRoots scope) scope memory ∧ frame memory)) :
    Yields
      (fun memory => Settles ((name, steps) :: rest) scope memory ∧
        Recalls ((name, steps) :: rest) (line.unboundRoots scope) scope memory ∧
        ReadyAlong name steps rest scope memory ∧ frame memory)
      (elements.mapM fun element =>
        Line.expandRun Resolver.remembering separator (scope.bind name element) [line])
      (elements.mapM fun element => line.textsAlong rest (scope.bind name element))
      (fun memory => Knows ((name, steps) :: rest) scope memory ∧ frame memory) := by
  apply (mapM_elements each).consequence
  · rintro memory ⟨_, recalls, ready, holds⟩
    exact ⟨ready elements along, recalls, holds⟩
  · rintro memory ⟨known, recalls, holds⟩
    refine ⟨⟨?_, known⟩, holds⟩
    intro other member
    apply recalls
    simp [Line.unboundRoots, fits.mentions other member, fits.unbound other member]

/-- A line is repeated along legs if they are ready, and then they are known. -/
theorem expandRun_line {legs : Legs} (fits : line.Fits legs scope)
    (spares : Spares (scope.innermost.name :: legs.names) frame) :
    Yields (fun memory => Ready legs scope memory ∧ frame memory)
      (Line.expandRun Resolver.remembering separator scope [line]) (line.textsAlong legs scope)
      (fun memory => Knows legs scope memory ∧ frame memory) := by
  induction legs generalizing scope frame with
  | nil =>
      have bound : ∀ name ∈ line.roots, scope.lookup? name ≠ none :=
        fun name member unbound => by cases fits.covers name member unbound
      rw [Line.textsAlong_nil]
      exact expandRun_bound bound expandRun_nil
  | cons leg rest ih =>
      rcases leg with ⟨name, steps⟩
      have apart : scope.innermost.name ∉ name :: Legs.names rest :=
        fun member => fits.innermost_ne _ member rfl
      have ahead : Spares [scope.innermost.name] fun memory =>
          ReadyAlong name steps rest scope memory ∧ frame memory :=
        (fits.spares_readyAlong).and (spares.mono (by simp))
      have behind : Spares (name :: Legs.names rest) fun memory =>
          Recalls ((name, steps) :: rest) (line.unboundRoots scope) scope memory ∧ frame memory :=
        (Spares.recalls apart).and (spares.mono fun _ member => List.mem_cons_of_mem _ member)
      have driven : Yields
          (fun memory => Settles ((name, steps) :: rest) scope memory ∧
            ReadyAlong name steps rest scope memory ∧ frame memory)
          (Line.expandRun Resolver.remembering separator scope [line])
          (line.textsAlong ((name, steps) :: rest) scope)
          (fun memory => Knows ((name, steps) :: rest) scope memory ∧ frame memory) := by
        rw [Line.textsAlong_cons]
        apply expandRun_driven fits.follows ahead
        · intro isEmpty
          rw [Line.countDeeper]
          exact Yields.pure 0
        · intro elements along
          exact mapM_expandRun fits along fun element => ih (fits.bind element) behind
      apply driven.consequence _ fun _ holds => holds
      exact fun memory holds => ⟨holds.1.1, holds.1.2, holds.2⟩

end Yields

end GraphTemplate
