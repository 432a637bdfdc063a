import GraphTemplate.Discovery
import GraphTemplate.Relation.Walk
import GraphTemplate.Template.Compile

/-!
# Expansion

Expanding the body of a template in a scope to the pieces of text it emits.

* Text is emitted as it stands.
* A loop is expanded once for each element of its relation, with the element bound.
* A line whose placeholders all lead somewhere from bound objects is emitted with their texts.
* A line with placeholders for elements of unbound relations is repeated for each element of the
  relation with the shortest route.  The lines after it that go deeper through the same relation are
  repeated together with it; between the repetitions of such a group stands the separator.

A repetition binds a name of the line that was unbound, so lines are taken up again only as often as
they have unbound names.
-/

namespace GraphTemplate

/-- A step of an expansion: it may fail at a place of the template, and it carries along the state of
a resolver. -/
abbrev Expansion (σ α : Type) := ExceptT LocatedFault (StateM σ) α

namespace Expansion

variable {σ α : Type}

/-- A search whose faults lie at a place of the template. -/
def locate (span : Span) (search : ExceptT Fault (StateM σ) α) : Expansion σ α :=
  search.adapt fun fault => ⟨fault, span⟩

/-- A result that needs no state. -/
def ofExcept (result : Except LocatedFault α) : Expansion σ α :=
  ExceptT.mk (pure result)

end Expansion

/-- The text of an attribute, which only plain scalars have. -/
def Attr.text? : Attr → Option String
  | .value content => content.text?
  | _ => none

/-- Follows names from an object through nested objects; without names it is the object itself.  A
fault lies at the name that cannot be followed. -/
def Object.follow : Object → List Ident → Except LocatedFault Attr
  | o, [] => .ok (.object o)
  | o, ident :: rest =>
      match o.attr? ident.name, rest with
      | none, _ => .error ⟨.missingAttribute ident.name, ident.span⟩
      | some attr, [] => .ok attr
      | some (.object inner), next :: more => inner.follow (next :: more)
      | some attr, next :: _ => .error ⟨.noAttributes next.name attr.kind, next.span⟩

/-- A placeholder that leads somewhere: from a bound object, first along names that were discovered,
then along those that are written in the template. -/
structure Anchor where
  placeholder : Placeholder
  owner : Object
  steps : List String

/-- The text that replaces a placeholder.  Discovered names are not written anywhere, so faults in
them lie at the placeholder as a whole. -/
def Anchor.text (anchor : Anchor) : Except LocatedFault String := do
  let span := anchor.placeholder.span
  let discovered : List Ident := anchor.steps.map fun name => ⟨name, span⟩
  let attr ← anchor.owner.follow (discovered ++ anchor.placeholder.path)
  match attr.text? with
  | some text => return text
  | none => throw ⟨.notRenderable attr.kind, span⟩

/-- A name on a line that stands for the elements of an unbound relation. -/
structure Driver (scope : Scope) (line : Line) where
  ident : Ident
  route : Route
  mem_roots : ident.name ∈ line.roots
  unbound : scope.lookup? ident.name = none

/-- What a part of a line is in a scope. -/
inductive Standing (scope : Scope) (line : Line) where
  | text (content : String)
  | anchored (anchor : Anchor)
  | unbound (driver : Driver scope line)

namespace Standing

variable {scope : Scope} {line : Line}

def driver? : Standing scope line → Option (Driver scope line)
  | unbound driver => some driver
  | _ => none

/-- The text of a part that is text or leads somewhere. -/
def emit? : Standing scope line → Option (Except LocatedFault String)
  | text content => some (.ok content)
  | anchored anchor => some anchor.text
  | unbound _ => none

end Standing

namespace Driver

variable {scope : Scope} {line : Line}

/-- The first of the drivers with the shortest route. -/
def shortest? : List (Driver scope line) → Option (Driver scope line)
  | [] => none
  | driver :: rest =>
      match shortest? rest with
      | none => some driver
      | some other =>
          if other.route.names.length < driver.route.names.length then some other else some driver

end Driver

def Node.element : Except Fault Node → Except Fault Object
  | .ok (.object content) => .ok content
  | .ok node => .error (.notAnElement node.kind)
  | .error fault => .error fault

namespace Scope

def owner (scope : Scope) (route : Route) : Except Fault Object :=
  match scope.lookup? route.owner with
  | some object => .ok object
  | none => .error (.unresolvedName route.owner (plural route.owner))

def elements (scope : Scope) (route : Route) : Except Fault (List Object) := do
  let owner ← scope.owner route
  allOrError ((owner.reach route.steps).map Node.element)

end Scope

namespace Line

variable {σ : Type}

theorem root_mem_roots {line : Line} {placeholder : Placeholder}
    (member : Part.placeholder placeholder ∈ line.parts) : placeholder.root.name ∈ line.roots := by
  refine List.mem_map.mpr ⟨placeholder, ?_, rfl⟩
  exact List.mem_filterMap.mpr ⟨_, member, rfl⟩

def standing (resolver : Resolver σ) (scope : Scope) (line : Line) :
    { part : Part // part ∈ line.parts } → Expansion σ (Standing scope line)
  | ⟨.text content, _⟩ => return .text content
  | ⟨.placeholder placeholder, member⟩ =>
      match unbound : scope.lookup? placeholder.root.name with
      | some object => return .anchored ⟨placeholder, object, []⟩
      | none => Expansion.locate placeholder.root.span do
          match ← resolver.find scope placeholder.root.name with
          | .relation route =>
              return .unbound ⟨placeholder.root, route, root_mem_roots member, unbound⟩
          | .attribute route =>
              let owner ← ExceptT.mk (pure (scope.owner route))
              return .anchored ⟨placeholder, owner, route.steps⟩

def standings (resolver : Resolver σ) (scope : Scope) (line : Line) :
    Expansion σ (List (Standing scope line)) :=
  line.parts.attach.mapM (standing resolver scope line)

/-- The text of a line none of whose parts is unbound. -/
def emit {scope : Scope} {line : Line} (standings : List (Standing scope line)) :
    Except LocatedFault String := do
  let texts ← allOrError (standings.filterMap Standing.emit?)
  return String.join texts

/-- A line goes deeper than a route if one of its names stands for elements below those at the end
of the route.  Below a relation without elements there is nothing to discover names by, so that a
name that cannot be resolved counts as deeper there. -/
def goesDeeper (resolver : Resolver σ) (scope : Scope) (route : Route) (isEmpty : Bool)
    (line : Line) : Expansion σ Bool :=
  tryCatch
    (do
      let standings ← line.standings resolver scope
      return (standings.filterMap Standing.driver?).any fun driver => driver.route.isBelow route)
    fun located =>
      match located.fault with
      | .unresolvedName _ _ => return isEmpty
      | _ => throw located

/-- The number of lines, from the first on, that go deeper than a route. -/
def countDeeper (resolver : Resolver σ) (scope : Scope) (route : Route) (isEmpty : Bool) :
    List Line → Expansion σ Nat
  | [] => return 0
  | line :: rest => do
      if ← line.goesDeeper resolver scope route isEmpty then
        return (← countDeeper resolver scope route isEmpty rest) + 1
      else
        return 0

/-- How often the lines use a name that the scope does not bind. -/
def unboundUses (scope : Scope) (lines : List Line) : Nat :=
  (lines.flatMap roots).countP fun name => (scope.lookup? name).isNone

theorem unboundUses_le_of_sublist (scope : Scope) {fewer lines : List Line}
    (sublist : fewer.Sublist lines) : unboundUses scope fewer ≤ unboundUses scope lines := by
  induction sublist with
  | slnil => exact Nat.le_refl _
  | cons line _ ih =>
      simp only [unboundUses, List.flatMap_cons, List.countP_append] at ih ⊢
      omega
  | cons_cons line _ ih =>
      simp only [unboundUses, List.flatMap_cons, List.countP_append] at ih ⊢
      omega

/-- Binding a name that the lines use and the scope does not bind leaves fewer such uses. -/
theorem unboundUses_bind_lt {scope : Scope} {lines : List Line} {name : String} (object : Object)
    (used : name ∈ lines.flatMap roots) (unbound : scope.lookup? name = none) :
    unboundUses (scope.bind name object) lines < unboundUses scope lines := by
  unfold unboundUses
  generalize lines.flatMap roots = names at used ⊢
  have fewer : ∀ other, ((scope.bind name object).lookup? other).isNone →
      (scope.lookup? other).isNone := by
    intro other isNone
    rw [Scope.lookup?_bind] at isNone
    split at isNone
    · simp at isNone
    · exact isNone
  obtain ⟨front, back, rfl⟩ := List.append_of_mem used
  have frontLe := List.countP_mono_left (l := front) fun other _ => fewer other
  have backLe := List.countP_mono_left (l := back) fun other _ => fewer other
  simp only [List.countP_append, List.countP_cons, Scope.lookup?_bind, if_pos, unbound] at *
  simp only [Option.isNone_some, Option.isNone_none, Bool.false_eq_true, if_false, if_true]
  omega

theorem unboundUses_drop_add_length_lt (scope : Scope) (line : Line) (rest : List Line)
    (count : Nat) : unboundUses scope (rest.drop count) + (rest.drop count).length <
      unboundUses scope (line :: rest) + (line :: rest).length := by
  have later : (rest.drop count).Sublist (line :: rest) :=
    (List.drop_sublist count rest).trans (List.sublist_cons_self line rest)
  have := unboundUses_le_of_sublist scope later
  simp only [List.length_drop, List.length_cons]
  omega

/-- A group that is repeated has fewer unbound uses once an element is bound. -/
theorem unboundUses_group_add_length_lt {scope : Scope} {line : Line} (driver : Driver scope line)
    (rest : List Line) (count : Nat) (element : Object) :
    unboundUses (scope.bind driver.ident.name element) (line :: rest.take count) +
        (line :: rest.take count).length <
      unboundUses scope (line :: rest) + (line :: rest).length := by
  have group : (line :: rest.take count).Sublist (line :: rest) :=
    (List.take_sublist count rest).cons_cons line
  have fewer := unboundUses_le_of_sublist scope group
  have lengths := group.length_le
  have used : driver.ident.name ∈ (line :: rest.take count).flatMap roots := by
    simp [driver.mem_roots]
  have less := unboundUses_bind_lt element used driver.unbound
  omega

/-- Expands consecutive lines with placeholders. -/
def expandRun (resolver : Resolver σ) (separator : String) (scope : Scope) :
    List Line → Expansion σ (List String)
  | [] => return []
  | line :: rest => do
      let standings ← line.standings resolver scope
      match Driver.shortest? (standings.filterMap Standing.driver?) with
      | none => do
          let text ← Expansion.ofExcept (emit standings)
          return text :: (← expandRun resolver separator scope rest)
      | some driver => do
          let elements ← Expansion.ofExcept ((scope.elements driver.route).mapError
            fun fault => ⟨fault, driver.ident.span⟩)
          let count ← countDeeper resolver scope driver.route elements.isEmpty rest
          let blocks ← elements.mapM fun element =>
            expandRun resolver separator (scope.bind driver.ident.name element)
              (line :: rest.take count)
          let between := if count = 0 then [] else [separator]
          return between.intercalate blocks ++
            (← expandRun resolver separator scope (rest.drop count))
termination_by lines => unboundUses scope lines + lines.length
decreasing_by
  · exact unboundUses_drop_add_length_lt scope line rest 0
  · exact unboundUses_group_add_length_lt driver rest count element
  · exact unboundUses_drop_add_length_lt scope line rest count

end Line

namespace Body

variable {σ : Type}

/-- The elements of the relation of a loop: those on the innermost binding that exposes it, or else
those of the relation that is discovered for the name of its elements. -/
def loopElements (resolver : Resolver σ) (scope : Scope) (relation : Ident) (element : String) :
    Expansion σ (List Object) :=
  match scope.relation? relation.name with
  | some elements => return elements
  | none => Expansion.locate relation.span do
      match ← resolver.find scope element with
      | .relation route => ExceptT.mk (pure (scope.elements route))
      | .attribute _ => throw (.unresolvedName element (plural element))

/-- Expands a body that comes after lines with placeholders that are still to be expanded. -/
def expandAfter (resolver : Resolver σ) (separator : String) (scope : Scope) (run : List Line) :
    Body → Expansion σ (List String)
  | nil => Line.expandRun resolver separator scope run
  | line content rest => expandAfter resolver separator scope (run ++ [content]) rest
  | text content _ rest => do
      let before ← Line.expandRun resolver separator scope run
      let after ← expandAfter resolver separator scope [] rest
      return before ++ content :: after
  | loop relation element inner rest => do
      let before ← Line.expandRun resolver separator scope run
      let elements ← loopElements resolver scope relation element
      let blocks ← elements.mapM fun object =>
        expandAfter resolver separator (scope.bind element object) [] inner
      let after ← expandAfter resolver separator scope [] rest
      return before ++ blocks.flatten ++ after

def expand (resolver : Resolver σ) (separator : String) (scope : Scope) (body : Body) :
    Expansion σ (List String) :=
  body.expandAfter resolver separator scope []

end Body

namespace Template

/-- The pieces of text that a template emits for a root object under a name. -/
def expandLines (separator : String) (template : Template) (name : String) (root : Object) :
    Except Error (List String) :=
  let expansion := template.body.expand Resolver.remembering separator (Scope.root name root)
  (expansion.run.run []).1.mapError (Error.ofLocated template.source)

/-- The text that a template makes for a root object under a name. -/
def expand (separator : String) (template : Template) (name : String) (root : Object) :
    Except Error String :=
  (template.expandLines separator name root).map String.join

end Template

end GraphTemplate
