import GraphTemplate.Expansion

/-!
# Substitution

The text of a line where every name stands for an object is said here without scopes and resolvers.
A line emits this text when all its names are bound.  When some are not, the parts with unbound names
are its drivers, and the shortest route among them decides which name is bound next.
-/

namespace GraphTemplate

/-- The text that replaces a placeholder where names stand for objects. -/
def Placeholder.textIn (meaning : String → Option Object) (placeholder : Placeholder) :
    Option String := do
  let owner ← meaning placeholder.root.name
  let attr ← (owner.follow placeholder.path).toOption
  attr.text?

def Part.textIn (meaning : String → Option Object) : Part → Option String
  | .text content => some content
  | .placeholder content => content.textIn meaning

/-- The text of a line where names stand for objects. -/
def Line.textIn (meaning : String → Option Object) (line : Line) : Option String :=
  (line.parts.mapM (Part.textIn meaning)).map String.join

theorem Line.mem_roots {line : Line} {name : String} :
    name ∈ line.roots ↔ ∃ placeholder, .placeholder placeholder ∈ line.parts ∧
      placeholder.root.name = name := by
  simp only [Line.roots, Line.placeholders, List.mem_map, List.mem_filterMap]
  constructor
  · rintro ⟨placeholder, ⟨part, member, isPlaceholder⟩, rfl⟩
    cases part with
    | text content => cases isPlaceholder
    | placeholder content =>
        cases isPlaceholder
        exact ⟨placeholder, member, rfl⟩
  · rintro ⟨placeholder, member, rfl⟩
    exact ⟨placeholder, ⟨_, member, rfl⟩, rfl⟩

theorem toOption_allOrError {ε α : Type} (items : List (Except ε α)) :
    (allOrError items).toOption = items.mapM Except.toOption := by
  induction items with
  | nil => rfl
  | cons item rest ih =>
      rcases item with fault | value
      · simp [allOrError, Except.toOption]
      · rw [allOrError, List.mapM_cons, ← ih]
        cases allOrError rest <;> rfl

theorem mapM_filterMap_eq_mapM {α β γ : Type} {items : List α} {f : α → Option β}
    {g : β → Option γ} {whole : α → Option γ}
    (each : ∀ item ∈ items, ∃ value, f item = some value ∧ g value = whole item) :
    (items.filterMap f).mapM g = items.mapM whole := by
  induction items with
  | nil => rfl
  | cons item rest ih =>
      rcases each item List.mem_cons_self with ⟨value, found, same⟩
      have others := ih fun other member => each other (List.mem_cons_of_mem _ member)
      rw [List.filterMap_cons, found, List.mapM_cons, List.mapM_cons, same, others]

theorem Anchor.toOption_text (placeholder : Placeholder) (owner : Object) :
    (Anchor.text ⟨placeholder, owner, []⟩).toOption =
      (owner.follow placeholder.path).toOption.bind Attr.text? := by
  simp only [Anchor.text, List.map_nil, List.nil_append]
  rcases owner.follow placeholder.path with fault | attr
  · rfl
  · simp only [Bind.bind, Except.bind, Except.toOption, Option.bind]
    cases attr.text? <;> rfl

namespace Driver

variable {scope : Scope} {line : Line}

theorem exists_shortest? {drivers : List (Driver scope line)} (nonempty : drivers ≠ []) :
    ∃ driver, shortest? drivers = some driver ∧ driver ∈ drivers ∧
      ∀ other ∈ drivers, driver.route.names.length ≤ other.route.names.length := by
  induction drivers with
  | nil => exact absurd rfl nonempty
  | cons first rest ih =>
      rcases rest with _ | ⟨second, more⟩
      · exact ⟨first, rfl, List.mem_cons_self, by simp⟩
      · rcases ih (by simp) with ⟨driver, found, member, least⟩
        simp only [shortest?] at found ⊢
        rw [found]
        dsimp only
        split
        · rename_i shorter
          refine ⟨driver, rfl, List.mem_cons_of_mem _ member, ?_⟩
          intro other otherMem
          rcases List.mem_cons.mp otherMem with rfl | later
          · omega
          · exact least other later
        · rename_i notShorter
          refine ⟨first, rfl, List.mem_cons_self, ?_⟩
          intro other otherMem
          rcases List.mem_cons.mp otherMem with rfl | later
          · exact Nat.le_refl _
          · have := least other later
            omega

theorem mem_of_shortest? {drivers : List (Driver scope line)} {driver : Driver scope line}
    (shortest : shortest? drivers = some driver) : driver ∈ drivers := by
  have nonempty : drivers ≠ [] := by
    rintro rfl
    cases shortest
  rcases exists_shortest? nonempty with ⟨_, found, member, _⟩
  rw [shortest] at found
  cases found
  exact member

end Driver

namespace Line

/-- What a part of a line is in a scope if its unbound name stands for the elements at the end of a
given route. -/
def standingBy (route : String → Route) (scope : Scope) (line : Line) :
    { part : Part // part ∈ line.parts } → Standing scope line
  | ⟨.text content, _⟩ => .text content
  | ⟨.placeholder placeholder, member⟩ =>
      match unbound : scope.lookup? placeholder.root.name with
      | some object => .anchored ⟨placeholder, object, []⟩
      | none => .unbound ⟨placeholder.root, route placeholder.root.name, root_mem_roots member, unbound⟩

/-- What the parts of a line are in a scope if unbound names stand for the elements at the end of
given routes. -/
def standingsBy (route : String → Route) (scope : Scope) (line : Line) :
    List (Standing scope line) :=
  line.parts.attach.map (standingBy route scope line)

variable {route : String → Route} {scope : Scope} {line : Line}

theorem standingBy_of_bound {placeholder : Placeholder} {object : Object}
    (member : .placeholder placeholder ∈ line.parts)
    (bound : scope.lookup? placeholder.root.name = some object) :
    standingBy route scope line ⟨.placeholder placeholder, member⟩ =
      .anchored ⟨placeholder, object, []⟩ := by
  rw [standingBy]
  split
  · rename_i found
    rw [bound] at found
    cases found
    rfl
  · rename_i found
    simp [bound] at found

theorem standingBy_of_unbound {placeholder : Placeholder}
    (member : .placeholder placeholder ∈ line.parts)
    (unbound : scope.lookup? placeholder.root.name = none) :
    standingBy route scope line ⟨.placeholder placeholder, member⟩ =
      .unbound ⟨placeholder.root, route placeholder.root.name, root_mem_roots member, unbound⟩ := by
  rw [standingBy]
  split
  · rename_i found
    simp [unbound] at found
  · rfl

theorem route_of_mem_drivers {driver : Driver scope line}
    (member : driver ∈ (standingsBy route scope line).filterMap Standing.driver?) :
    driver.route = route driver.ident.name := by
  simp only [standingsBy, List.mem_filterMap, List.mem_map] at member
  rcases member with ⟨_, ⟨⟨part, partMem⟩, _, rfl⟩, isDriver⟩
  cases part with
  | text content => cases isDriver
  | placeholder content =>
      rcases meaning : scope.lookup? content.root.name with _ | object
      · rw [standingBy_of_unbound partMem meaning] at isDriver
        cases isDriver
        rfl
      · rw [standingBy_of_bound partMem meaning] at isDriver
        cases isDriver

theorem exists_driver (route : String → Route) {name : String} (member : name ∈ line.roots)
    (unbound : scope.lookup? name = none) :
    ∃ driver ∈ (standingsBy route scope line).filterMap Standing.driver?,
      driver.ident.name = name := by
  rcases mem_roots.mp member with ⟨placeholder, partMem, rfl⟩
  refine ⟨⟨placeholder.root, route placeholder.root.name, root_mem_roots partMem, unbound⟩, ?_, rfl⟩
  refine List.mem_filterMap.mpr ⟨_, List.mem_map_of_mem (List.mem_attach _ ⟨_, partMem⟩), ?_⟩
  rw [standingBy_of_unbound partMem unbound]
  rfl

theorem drivers_eq_nil (bound : ∀ name ∈ line.roots, scope.lookup? name ≠ none) :
    (standingsBy route scope line).filterMap Standing.driver? = [] := by
  apply List.eq_nil_iff_forall_not_mem.mpr
  intro driver _
  exact bound _ driver.mem_roots driver.unbound

theorem standings_of_bound {σ : Type} {resolver : Resolver σ} (route : String → Route)
    (bound : ∀ name ∈ line.roots, scope.lookup? name ≠ none) :
    line.standings resolver scope = pure (standingsBy route scope line) := by
  have each : ∀ part : { part : Part // part ∈ line.parts },
      line.standing resolver scope part = pure (standingBy route scope line part) := by
    rintro ⟨content | placeholder, member⟩
    · rfl
    · rcases meaning : scope.lookup? placeholder.root.name with _ | object
      · exact absurd meaning (bound _ (root_mem_roots member))
      · rw [standingBy_of_bound member meaning, standing]
        split
        · rename_i found
          rw [meaning] at found
          cases found
          rfl
        · rename_i found
          simp [meaning] at found
  rw [standings, standingsBy, funext each, List.mapM_pure]

theorem toOption_emit (route : String → Route)
    (bound : ∀ name ∈ line.roots, scope.lookup? name ≠ none) :
    (emit (standingsBy route scope line)).toOption = line.textIn scope.lookup? := by
  have emitted : (emit (standingsBy route scope line)).toOption =
      ((allOrError ((standingsBy route scope line).filterMap Standing.emit?)).toOption).map
        String.join := by
    unfold emit
    cases allOrError ((standingsBy route scope line).filterMap Standing.emit?) <;> rfl
  have attached : line.parts.mapM (Part.textIn scope.lookup?) =
      line.parts.attach.mapM (Part.textIn scope.lookup? ∘ Subtype.val) := by
    rw [← List.mapM_map, List.attach_map_subtype_val]
  rw [emitted, toOption_allOrError, textIn, attached, standingsBy, List.filterMap_map]
  congr 1
  apply mapM_filterMap_eq_mapM
  rintro ⟨part, member⟩ _
  cases part with
  | text content => exact ⟨_, rfl, rfl⟩
  | placeholder content =>
      rcases meaning : scope.lookup? content.root.name with _ | object
      · exact absurd meaning (bound _ (root_mem_roots member))
      · refine ⟨Anchor.text ⟨content, object, []⟩, ?_, ?_⟩
        · rw [Function.comp_apply, standingBy_of_bound member meaning]
          rfl
        · simp [Anchor.toOption_text, Part.textIn, Placeholder.textIn, meaning]

end Line

end GraphTemplate
