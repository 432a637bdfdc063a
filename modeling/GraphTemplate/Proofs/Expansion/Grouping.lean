import GraphTemplate.Proofs.Expansion.Nesting

/-!
# Groups of lines

A line followed by one that goes deeper through the same relation is repeated together with it.  The
decision is made from the routes found where neither name is bound; within a repetition the second
line follows the leg that is left.  The separator stands between the repetitions and nowhere else.
-/

namespace GraphTemplate

namespace Yields

variable {legs : Legs} {scope : Scope} {frame : Memory → Prop} {line : Line}

theorem goesDeeper {name : String} {route : Route} {isEmpty : Bool}
    (covers : ∀ other ∈ line.roots, scope.lookup? other = none → other ∈ legs.names)
    (spares : Spares [scope.innermost.name] frame) (mentions : name ∈ line.roots)
    (unbound : scope.lookup? name = none) (below : (scope.routeAlong legs name).isBelow route) :
    Yields (fun memory => Settles legs scope memory ∧ frame memory)
      (line.goesDeeper Resolver.remembering scope route isEmpty) (some true)
      (fun memory => Settles legs scope memory ∧ frame memory) := by
  have deeper : ((Line.standingsBy (scope.routeAlong legs) scope line).filterMap
      Standing.driver?).any (fun driver => driver.route.isBelow route) = true := by
    rcases Line.exists_driver (scope.routeAlong legs) mentions unbound with
      ⟨driver, member, rfl⟩
    rw [List.any_eq_true]
    exact ⟨driver, member, Line.route_of_mem_drivers member ▸ below⟩
  apply Yields.tryCatch
  apply (standings covers spares).andThen
  rw [deeper]
  apply (Yields.pure true).consequence fun _ holds => holds
  exact fun memory holds => ⟨holds.1, holds.2.2⟩

end Yields

theorem Line.textsAlong_single (line : Line) (name : String) (steps : List String) (scope : Scope) :
    line.textsAlong [(name, steps)] scope = (do
      let elements ← scope.innermost.object.elementsAlong? steps
      elements.mapM fun element => line.textIn (scope.bind name element).lookup?) := by
  have each : ∀ elements : List Object,
      (elements.flatMapM fun element =>
        (line.textIn (scope.bind name element).lookup?).map ([·])) =
      elements.mapM fun element => line.textIn (scope.bind name element).lookup? := by
    intro elements
    induction elements with
    | nil => rfl
    | cons element rest ih =>
        rw [List.flatMapM_cons, List.mapM_cons, ih]
        cases line.textIn (scope.bind name element).lookup? <;> rfl
  simp only [textsAlong, each]

/-- A line whose only unbound name is that of a leg, and a line whose only unbound name, once that of
the first is bound, is the name of another leg behind it. -/
structure Line.Groups (first second : Line) (outer inner : String) (further : List String)
    (scope : Scope) : Prop where
  follows : first.Follows outer [(inner, further)] scope
  bound : ∀ name ∈ first.roots, scope.lookup? name = none → name = outer
  fits : ∀ element, second.Fits [(inner, further)] (scope.bind outer element)

namespace Line.Groups

variable {first second : Line} {outer inner : String} {further : List String} {scope : Scope}

theorem outer_ne_inner (groups : first.Groups second outer inner further scope) :
    outer ≠ inner := by
  intro same
  have unbound := (groups.fits scope.innermost.object).unbound inner List.mem_cons_self
  simp [Scope.lookup?_bind, same] at unbound

theorem inner_unbound (groups : first.Groups second outer inner further scope) :
    scope.lookup? inner = none := by
  have unbound := (groups.fits scope.innermost.object).unbound inner List.mem_cons_self
  rwa [Scope.lookup?_bind, if_neg groups.outer_ne_inner] at unbound

theorem bound_within (groups : first.Groups second outer inner further scope) (element : Object) :
    ∀ name ∈ first.roots, (scope.bind outer element).lookup? name ≠ none := by
  intro name member unbound
  rw [Scope.lookup?_bind] at unbound
  split at unbound
  · cases unbound
  · rename_i different
    exact different (groups.bound name member unbound).symm

theorem covers (groups : first.Groups second outer inner further scope) (steps : List String) :
    ∀ other ∈ second.roots, scope.lookup? other = none →
      other ∈ Legs.names [(outer, steps), (inner, further)] := by
  intro other member unbound
  by_cases same : outer = other
  · simp [Legs.names, same]
  · have covered := (groups.fits scope.innermost.object).covers other member
    rw [Scope.lookup?_bind, if_neg same] at covered
    exact List.mem_cons_of_mem _ (covered unbound)

theorem isBelow (groups : first.Groups second outer inner further scope) (steps : List String) :
    (scope.routeAlong [(outer, steps), (inner, further)] inner).isBelow
      ⟨scope.innermost.name, steps⟩ := by
  have longer := (groups.fits scope.innermost.object).longer (inner, further) List.mem_cons_self
  have positive : 0 < further.length := List.length_pos_iff.mpr longer
  simp only [Scope.routeAlong, routeAlong, if_neg groups.outer_ne_inner, List.nil_append, if_pos,
    Route.isBelow, Route.names, Bool.and_eq_true, List.isPrefixOf_iff_prefix, decide_eq_true_eq,
    List.length_cons, List.length_append]
  exact ⟨⟨further, by simp⟩, by omega⟩

theorem spares (groups : first.Groups second outer inner further scope) (steps : List String) :
    Spares [scope.innermost.name] (ReadyAlong outer steps [(inner, further)] scope) := by
  apply Spares.readyAlong
  · simpa using Scope.ne_innermost_of_unbound groups.follows.unbound
  · simpa [Legs.names] using Scope.ne_innermost_of_unbound groups.inner_unbound

end Line.Groups

namespace Yields

variable {first second : Line} {outer inner : String} {further : List String} {scope : Scope}

theorem expandRun_group {separator : String} (bound : ∀ name ∈ first.roots, scope.lookup? name ≠ none)
    (fits : second.Fits [(inner, further)] scope) :
    Yields (fun memory => Ready [(inner, further)] scope memory ∧ True)
      (Line.expandRun Resolver.remembering separator scope [first, second])
      (do let head ← first.textIn scope.lookup?
          let texts ← second.textsAlong [(inner, further)] scope
          return head :: texts)
      (fun memory => Knows [(inner, further)] scope memory ∧ True) := by
  apply expandRun_bound bound
  exact expandRun_line fits fun _ _ _ _ holds => holds

theorem countDeeper_group (groups : first.Groups second outer inner further scope)
    (steps : List String) (isEmpty : Bool) :
    Yields
      (fun memory => Settles [(outer, steps), (inner, further)] scope memory ∧
        Recalls [(outer, steps), (inner, further)] (first.unboundRoots scope) scope memory ∧
        ReadyAlong outer steps [(inner, further)] scope memory)
      (Line.countDeeper Resolver.remembering scope ⟨scope.innermost.name, steps⟩ isEmpty [second])
      (some 1) (ReadyAlong outer steps [(inner, further)] scope) := by
  have mentions := (groups.fits scope.innermost.object).mentions inner List.mem_cons_self
  have goes : Yields _ (second.goesDeeper _ scope ⟨scope.innermost.name, steps⟩ isEmpty) _ _ :=
    goesDeeper (groups.covers steps) (groups.spares steps) mentions groups.inner_unbound
      (groups.isBelow steps)
  rw [Line.countDeeper]
  apply (goes.consequence (fun _ holds => ⟨holds.1, holds.2.2⟩) fun _ holds => holds.2).andThen
  simp only [if_true, Line.countDeeper]
  exact Yields.pure 1

/-- Two lines of which the second goes deeper through the relation of the first are repeated together
for the elements of the first. -/
theorem expandRun_groups (groups : first.Groups second outer inner further scope)
    (steps : List String) (separator : String) :
    Yields (Ready [(outer, steps), (inner, further)] scope)
      (Line.expandRun Resolver.remembering separator scope [first, second])
      (do let elements ← scope.innermost.object.elementsAlong? steps
          let blocks ← elements.mapM fun element => do
            let head ← first.textIn (scope.bind outer element).lookup?
            let texts ← second.textsAlong [(inner, further)] (scope.bind outer element)
            return head :: texts
          return [separator].intercalate blocks)
      (fun _ => True) := by
  apply expandRun_driven groups.follows (groups.spares steps) (countDeeper_group groups steps)
  intro elements along
  apply (mapM_elements fun element =>
    expandRun_group (groups.bound_within element) (groups.fits element)).consequence
  · exact fun memory holds => ⟨holds elements along, trivial⟩
  · exact fun _ _ => trivial

end Yields

theorem Line.groups_root {first second : Line} {root : Object} {owner outer inner : String}
    {further : List String} (outerNe : outer ≠ owner) (innerNe : inner ≠ owner)
    (apart : outer ≠ inner) (goesOn : further ≠ []) (firstMentions : outer ∈ first.roots)
    (firstRoots : ∀ other ∈ first.roots, other = outer ∨ other = owner)
    (secondMentions : inner ∈ second.roots)
    (secondRoots : ∀ other ∈ second.roots, other = inner ∨ other = outer ∨ other = owner) :
    first.Groups second outer inner further (Scope.root owner root) := by
  have onlyOuter : ∀ other ∈ first.roots, (Scope.root owner root).lookup? other = none →
      other = outer := by
    intro other member unbound
    rcases firstRoots other member with same | rfl
    · exact same
    · simp [Scope.lookup?_root] at unbound
  refine ⟨⟨firstMentions, ?_, ?_, by simp [goesOn]⟩, onlyOuter, ?_⟩
  · rw [Scope.lookup?_root, if_neg (Ne.symm outerNe)]
  · intro other member unbound
    rw [onlyOuter other member unbound]
    exact List.mem_cons_self
  · intro element
    constructor
    · intro other member unbound
      rw [Scope.lookup?_bind, Scope.lookup?_root] at unbound
      rcases secondRoots other member with rfl | rfl | rfl
      · exact List.mem_cons_self
      · simp at unbound
      · simp [outerNe] at unbound
    · simpa [Legs.names] using secondMentions
    · simp [Legs.names, Scope.lookup?_bind, Scope.lookup?_root, apart, Ne.symm innerNe]
    · simp [Legs.names]
    · simp [goesOn]

theorem ready_pair {root : Object} {owner outer inner : String} {steps further : List String}
    (distinct : root.NamesDistinct) (apart : outer ≠ inner) (goesOn : further ≠ [])
    (only : LeadsOnly (plural outer) [(owner, root)] ⟨owner, steps⟩)
    (onlyInner : LeadsOnly (plural inner) [(owner, root)] ⟨owner, steps ++ further⟩) :
    Ready [(outer, steps), (inner, further)] (Scope.root owner root) [] := by
  have goesDown : steps ≠ [] := by
    rcases only with ⟨positions, leads, _⟩
    exact leads.steps_ne_nil
  apply ready_of_leadsOnly distinct
  · simp [goesDown, goesOn]
  · simpa [Legs.names] using apart
  · intro other member
    simp only [Legs.names, List.map_cons, List.map_nil, List.mem_cons, List.not_mem_nil,
      or_false] at member
    rcases member with rfl | rfl
    · simpa [Scope.routeAlong, routeAlong] using only
    · simpa [Scope.routeAlong, routeAlong, apart] using onlyInner

/-- Two lines with placeholders of which the second goes deeper through the relation of the first emit
a block for each element of that relation, in order: the first line, and the second line for each
element further along.  The separator stands between blocks and nowhere else; it fails if a walk or
a substitution fails.  Over all blocks, the second line is emitted for the elements of the whole walk,
each once and in order. -/
theorem renderLines_group_eq_blocks {engine : Engine} {template : Template} {first second : Line}
    {root : Object} {name outer inner : String} {route : Route} {further : List String}
    (body : template.body = .line first (.line second .nil)) (distinct : root.NamesDistinct)
    (outerNe : outer ≠ name) (innerNe : inner ≠ name)
    (firstMentions : outer ∈ first.roots)
    (firstRoots : ∀ other ∈ first.roots, other = outer ∨ other = name)
    (secondMentions : inner ∈ second.roots)
    (secondRoots : ∀ other ∈ second.roots, other = inner ∨ other = outer ∨ other = name)
    (found : findRelation? [(name, root)] outer = .ok (some route))
    (foundInner : findRelation? [(name, root)] inner =
      .ok (some ⟨route.owner, route.steps ++ further⟩))
    (goesOn : further ≠ []) :
    (∀ texts, engine.renderLines template name root = .ok texts ↔
      ∃ elements blocks, root.elementsAlong? route.steps = some elements ∧
        (elements.mapM fun element => do
          let head ← first.textIn (Fields.get? [(name, root), (outer, element)])
          let below ← element.elementsAlong? further
          let rest ← below.mapM fun reached =>
            second.textIn (Fields.get? [(name, root), (outer, element), (inner, reached)])
          return head :: rest) = some blocks ∧
        [engine.separator].intercalate blocks = texts) ∧
    ((root.elementsAlong? route.steps).bind fun elements =>
        elements.flatMapM fun element => element.elementsAlong? further) =
      root.elementsAlong? (route.steps ++ further) := by
  have only : LeadsOnly (plural outer) [(name, root)] route := searchLevel_eq_some_iff.mp found
  have onlyInner : LeadsOnly (plural inner) [(name, root)] ⟨route.owner, route.steps ++ further⟩ :=
    searchLevel_eq_some_iff.mp foundInner
  have start := only.owner_eq
  rcases route with ⟨owner, steps⟩
  dsimp only at start only onlyInner found foundInner
  subst start
  have apart : outer ≠ inner := by
    rintro rfl
    rw [found] at foundInner
    simp only [Except.ok.injEq, Option.some.injEq, Route.mk.injEq, true_and] at foundInner
    exact goesOn (by simpa using foundInner)
  have ready := ready_pair distinct apart goesOn only onlyInner
  have groups : first.Groups second outer inner further (Scope.root owner root) :=
    Line.groups_root outerNe innerNe apart goesOn firstMentions firstRoots secondMentions secondRoots
  have yields := Yields.expandRun_groups groups steps engine.separator
  have expansion : template.body.expand Resolver.remembering engine.separator
      (Scope.root owner root) = Line.expandRun Resolver.remembering engine.separator
        (Scope.root owner root) [first, second] := by
    rw [body]
    rfl
  have outcome := Template.toOption_expandLines expansion yields ready
  constructor
  · intro texts
    have outerMeaning : ∀ element, ((Scope.root owner root).bind outer element).lookup? =
        Fields.get? [(owner, root), (outer, element)] := by
      intro element
      funext other
      simp only [Scope.lookup?_bind, Scope.lookup?_root, Fields.get?_cons, Fields.get?_nil]
      grind
    have innerMeaning : ∀ element reached,
        (((Scope.root owner root).bind outer element).bind inner reached).lookup? =
          Fields.get? [(owner, root), (outer, element), (inner, reached)] := by
      intro element reached
      funext other
      simp only [Scope.lookup?_bind, Scope.lookup?_root, Fields.get?_cons, Fields.get?_nil]
      grind
    rw [eq_ok_iff_toOption, Engine.renderLines, outcome]
    simp only [Line.textsAlong_single, outerMeaning, innerMeaning, Scope.innermost_bind,
      Scope.innermost_root, Option.bind_eq_bind, Option.bind_assoc, Option.pure_def,
      Option.bind_eq_some_iff, Option.some.injEq, exists_and_left]
  · rw [Object.elementsAlong?_append]
    rfl

theorem renderLines_item_then_tags :
    Engine.renderLines {} ⟨"{item.name}\n{tag.label}",
      .line ⟨[itemName], ⟨0, 11⟩⟩ (.line ⟨[tagLabel 12], ⟨12, 23⟩⟩ .nil)⟩ "root" taggedItems =
        .ok ["a", "x", "y", "\n", "b", "\n", "c", "z"] := by
  have whole := @renderLines_group_eq_blocks {} ⟨"{item.name}\n{tag.label}", _⟩
    ⟨[itemName], ⟨0, 11⟩⟩ ⟨[tagLabel 12], ⟨12, 23⟩⟩ taggedItems "root" "item" "tag"
    ⟨"root", ["items"]⟩ ["tags"] rfl namesDistinct_taggedItems (by decide) (by decide) (by decide)
    (by decide) (by decide) (by decide) (by decide) (by decide) (by decide)
  apply (whole.1 _).mpr
  simp only [Object.elementsAlong?_eq_mapM_reach]
  exact ⟨_, _, rfl, rfl, rfl⟩

end GraphTemplate
