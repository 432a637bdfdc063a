import GraphTemplate.Proofs.Discovery
import GraphTemplate.Proofs.Expansion.Outcome
import GraphTemplate.Proofs.Expansion.Substitution

/-!
# Recall

A line is repeated along legs: each leg is a name to bind and the steps from the element bound
before to the elements that the name stands for.  From the element bound innermost, the route to the
elements of a name goes along all legs up to that of the name.

A memory is ready for the legs if it will answer the questions about their names by these routes as
long as first elements are bound, and it knows the legs if it holds these answers.  Which elements
are bound does not matter for what it knows, so that the answers found below first elements serve for
all others.
-/

namespace GraphTemplate

/-- Names to bind one after the other, each with the steps from the element bound before. -/
abbrev Legs := List (String × List String)

def Legs.names (legs : Legs) : List String :=
  legs.map Prod.fst

/-- The route along the legs up to that of a name, after steps already passed. -/
def routeAlong (owner : String) (passed : List String) : Legs → String → Route
  | [], _ => ⟨owner, passed⟩
  | (name, steps) :: rest, other =>
      if name = other then ⟨owner, passed ++ steps⟩
      else routeAlong owner (passed ++ steps) rest other

theorem routeAlong_append (owner next : String) (front passed : List String)
    (legs : Legs) (name : String) :
    routeAlong owner (front ++ passed) legs name =
      ⟨owner, front ++ (routeAlong next passed legs name).steps⟩ := by
  induction legs generalizing passed with
  | nil => rfl
  | cons leg rest ih =>
      rcases leg with ⟨first, steps⟩
      simp only [routeAlong]
      split
      · simp
      · rw [← ih, List.append_assoc]

theorem routeAlong_cons_of_ne {owner first name : String} {steps : List String}
    (rest : Legs) (different : first ≠ name) :
    routeAlong owner [] ((first, steps) :: rest) name =
      ⟨owner, steps ++ (routeAlong first [] rest name).steps⟩ := by
  rw [routeAlong, if_neg different, List.nil_append, ← routeAlong_append, List.append_nil]

theorem length_lt_routeAlong (owner : String) (passed : List String) {name : String} {legs : Legs}
    (more : ∀ leg ∈ legs, leg.2 ≠ []) (member : name ∈ legs.names) :
    passed.length < (routeAlong owner passed legs name).steps.length := by
  induction legs generalizing passed with
  | nil => cases member
  | cons leg rest ih =>
      rcases leg with ⟨first, steps⟩
      have positive : 0 < steps.length :=
        List.length_pos_iff.mpr (more (first, steps) List.mem_cons_self)
      rw [routeAlong]
      split
      · simp only [List.length_append]
        omega
      · rename_i different
        have later : name ∈ Legs.names rest := by
          simpa [Legs.names, Ne.symm different] using member
        have longer := ih (passed ++ steps)
          (fun other otherMem => more other (List.mem_cons_of_mem _ otherMem)) later
        simp only [List.length_append] at longer
        omega

/-- The route to the elements that a name of the legs stands for, from the object bound
innermost. -/
def Scope.routeAlong (scope : Scope) (legs : Legs) (name : String) : Route :=
  GraphTemplate.routeAlong scope.innermost.name [] legs name

/-- The memory holds the routes of these names. -/
def Recalls (legs : Legs) (names : List String) (scope : Scope) (memory : Memory) : Prop :=
  ∀ name ∈ names,
    memory.lookup (scope.question name) = some (.relation (scope.routeAlong legs name))

/-- The memory holds the route of each name of the legs, or it holds nothing and the route is
discovered. -/
def Settles (legs : Legs) (scope : Scope) (memory : Memory) : Prop :=
  ∀ name ∈ legs.names,
    memory.lookup (scope.question name) = some (.relation (scope.routeAlong legs name)) ∨
    memory.lookup (scope.question name) = none ∧
      scope.discover name = .ok (.relation (scope.routeAlong legs name))

/-- A condition on memories that answers to questions with one of these names bound innermost cannot
break. -/
def Spares (innermost : List String) (condition : Memory → Prop) : Prop :=
  ∀ memory question finding, question.innermost ∈ innermost → condition memory →
    condition ((question, finding) :: memory)

namespace Spares

variable {innermost : List String} {left right : Memory → Prop}

theorem and (first : Spares innermost left) (second : Spares innermost right) :
    Spares innermost fun memory => left memory ∧ right memory :=
  fun _ _ _ member holds => ⟨first _ _ _ member holds.1, second _ _ _ member holds.2⟩

theorem mono {fewer : List String} (spares : Spares innermost left)
    (subset : ∀ name ∈ fewer, name ∈ innermost) : Spares fewer left :=
  fun _ _ _ member holds => spares _ _ _ (subset _ member) holds

theorem lookup_cons {scope : Scope} {name : String} {memory : Memory} {question : Question}
    {finding : Finding} (apart : scope.innermost.name ∉ innermost)
    (member : question.innermost ∈ innermost) :
    List.lookup (scope.question name) ((question, finding) :: memory) =
      memory.lookup (scope.question name) := by
  have different : scope.question name ≠ question := by
    rintro rfl
    exact apart member
  rw [List.lookup_cons, beq_false_of_ne different]

theorem recalls {legs : Legs} {names : List String} {scope : Scope}
    (apart : scope.innermost.name ∉ innermost) : Spares innermost (Recalls legs names scope) := by
  intro memory question finding member holds name nameMem
  rw [lookup_cons apart member]
  exact holds name nameMem

theorem settles {legs : Legs} {scope : Scope} (apart : scope.innermost.name ∉ innermost) :
    Spares innermost (Settles legs scope) := by
  intro memory question finding member holds name nameMem
  rw [lookup_cons apart member]
  exact holds name nameMem

end Spares

theorem Recalls.settles {legs : Legs} {scope : Scope} {memory : Memory}
    (recalls : Recalls legs legs.names scope memory) : Settles legs scope memory :=
  fun name member => Or.inl (recalls name member)

theorem Recalls.of_sameNames {legs : Legs} {names : List String} {scope other : Scope}
    {memory : Memory} (recalls : Recalls legs names scope memory) (same : scope.SameNames other) :
    Recalls legs names other memory := by
  intro name member
  have innermost : scope.innermost.name = other.innermost.name := (List.cons.inj same).1
  rw [← same.question_eq, Scope.routeAlong, ← innermost]
  exact recalls name member

theorem lookup_question_cons {scope : Scope} {name other : String} {memory : Memory}
    {finding : Finding} :
    List.lookup (scope.question other) ((scope.question name, finding) :: memory) =
      if other = name then some finding else memory.lookup (scope.question other) := by
  rw [List.lookup_cons]
  by_cases same : other = name
  · simp [same]
  · have different : scope.question other ≠ scope.question name :=
      fun equal => same (congrArg Question.name equal)
    rw [if_neg same, beq_false_of_ne different]

/-- The names on a line that a scope does not bind. -/
def Line.unboundRoots (scope : Scope) (line : Line) : List String :=
  line.roots.filter fun name => (scope.lookup? name).isNone

namespace Yields

variable {legs : Legs} {known : List String} {scope : Scope} {frame : Memory → Prop}

/-- A question about a settled name is answered by its route, and then the memory holds it. -/
theorem find {name : String} (member : name ∈ legs.names)
    (spares : Spares [scope.innermost.name] frame) :
    Yields
      (fun memory => Settles legs scope memory ∧ Recalls legs known scope memory ∧
        frame memory)
      (Resolver.remembering.find scope name) (some (.relation (scope.routeAlong legs name)))
      (fun memory => Settles legs scope memory ∧
        Recalls legs (name :: known) scope memory ∧ frame memory) := by
  rintro memory ⟨settles, recalls, framed⟩
  rcases settles name member with found | ⟨unknown, discovered⟩
  · rw [Resolver.find_remembered found]
    refine ⟨rfl, fun _ => ⟨settles, ?_, framed⟩⟩
    intro other otherMem
    rcases List.mem_cons.mp otherMem with rfl | earlier
    · exact found
    · exact recalls other earlier
  · rw [Resolver.find_discovered unknown discovered]
    refine ⟨rfl, fun _ => ⟨?_, ?_, spares _ _ _ List.mem_cons_self framed⟩⟩
    · intro other otherMem
      rw [lookup_question_cons]
      split
      · rename_i same
        rw [same]
        exact Or.inl rfl
      · exact settles other otherMem
    · intro other otherMem
      rw [lookup_question_cons]
      split
      · rename_i same
        rw [same]
      · rename_i different
        rcases List.mem_cons.mp otherMem with same | earlier
        · exact absurd same different
        · exact recalls other earlier

variable {line : Line}

theorem standing (part : { part : Part // part ∈ line.parts })
    (covers : ∀ name ∈ line.roots, scope.lookup? name = none → name ∈ legs.names)
    (spares : Spares [scope.innermost.name] frame) :
    ∃ asked : List String,
      (∀ placeholder, part.1 = .placeholder placeholder →
        scope.lookup? placeholder.root.name = none → placeholder.root.name ∈ asked) ∧
      Yields
        (fun memory => Settles legs scope memory ∧ Recalls legs known scope memory ∧
          frame memory)
        (Line.standing Resolver.remembering scope line part)
        (some (Line.standingBy (scope.routeAlong legs) scope line part))
        (fun memory => Settles legs scope memory ∧
          Recalls legs (asked ++ known) scope memory ∧ frame memory) := by
  rcases part with ⟨content | placeholder, member⟩
  · exact ⟨[], by simp, Yields.pure _⟩
  · rcases meaning : scope.lookup? placeholder.root.name with _ | object
    · refine ⟨[placeholder.root.name], by simp, ?_⟩
      rw [Line.standingBy_of_unbound member meaning, Line.standing]
      split
      · rename_i found
        simp [meaning] at found
      · apply Yields.locate
        apply (find (covers _ (Line.root_mem_roots member) meaning) spares).andThen
        exact Yields.pure _
    · refine ⟨[], by simp [meaning], ?_⟩
      rw [Line.standingBy_of_bound member meaning, Line.standing]
      split
      · rename_i found
        rw [meaning] at found
        cases found
        exact Yields.pure _
      · rename_i found
        simp [meaning] at found

theorem mapM_standing (known : List String) (parts : List { part : Part // part ∈ line.parts })
    (covers : ∀ name ∈ line.roots, scope.lookup? name = none → name ∈ legs.names)
    (spares : Spares [scope.innermost.name] frame) :
    ∃ asked : List String,
      (∀ part ∈ parts, ∀ placeholder, part.1 = .placeholder placeholder →
        scope.lookup? placeholder.root.name = none → placeholder.root.name ∈ asked) ∧
      Yields
        (fun memory => Settles legs scope memory ∧ Recalls legs known scope memory ∧
          frame memory)
        (parts.mapM (Line.standing Resolver.remembering scope line))
        (some (parts.map (Line.standingBy (scope.routeAlong legs) scope line)))
        (fun memory => Settles legs scope memory ∧
          Recalls legs (asked ++ known) scope memory ∧ frame memory) := by
  induction parts generalizing known with
  | nil => exact ⟨[], by simp, Yields.pure []⟩
  | cons part rest ih =>
      rcases standing part covers spares with ⟨asked, complete, first⟩
      rcases ih (asked ++ known) with ⟨more, restComplete, others⟩
      refine ⟨more ++ asked, ?_, ?_⟩
      · intro other otherMem placeholder isPlaceholder unbound
        rcases List.mem_cons.mp otherMem with rfl | later
        · exact List.mem_append_right _ (complete placeholder isPlaceholder unbound)
        · exact List.mem_append_left _ (restComplete other later placeholder isPlaceholder unbound)
      · rw [List.mapM_cons]
        apply first.andThen
        apply others.andThen
        rw [List.append_assoc]
        exact Yields.pure _

/-- Settled names make the parts of a line what they are by their routes, and then the memory holds
the routes of all unbound names on the line. -/
theorem standings (covers : ∀ name ∈ line.roots, scope.lookup? name = none → name ∈ legs.names)
    (spares : Spares [scope.innermost.name] frame) :
    Yields
      (fun memory => Settles legs scope memory ∧ frame memory)
      (line.standings Resolver.remembering scope)
      (some (Line.standingsBy (scope.routeAlong legs) scope line))
      (fun memory => Settles legs scope memory ∧
        Recalls legs (line.unboundRoots scope) scope memory ∧
        frame memory) := by
  rcases mapM_standing [] line.parts.attach covers spares with ⟨asked, complete, yields⟩
  apply yields.consequence
  · intro memory holds
    exact ⟨holds.1, by simp [Recalls], holds.2⟩
  · rintro memory ⟨settles, recalls, framed⟩
    refine ⟨settles, ?_, framed⟩
    intro name member
    simp only [Line.unboundRoots, List.mem_filter, Option.isNone_iff_eq_none] at member
    rcases Line.mem_roots.mp member.1 with ⟨placeholder, partMem, rfl⟩
    apply recalls
    rw [List.append_nil]
    exact complete ⟨_, partMem⟩ (List.mem_attach _ _) placeholder rfl member.2

end Yields

end GraphTemplate
