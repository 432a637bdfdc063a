import GraphTemplate.Object

/-!
# Walks along attributes

Following a chain of attribute names from an object.  A relation leads to each of its elements in
order, a nested object to itself, and a plain value ends the chain.  `Object.reach` lists everything
that a chain leads to, errors in their places; `Walker` yields the same one item at a time from a stack
of elements that are partly done, and ends with the first error.
-/

namespace GraphTemplate

inductive Node where
  | object (content : Object)
  | value (content : Value)

namespace Node

def kind : Node → Kind
  | object _ => .object
  | value content => content.kind

end Node

/-- Everything that a chain leads to, depth first. -/
def Object.reach : List String → Object → List (Except Fault Node)
  | [], o => [.ok (.object o)]
  | name :: rest, o =>
      match o.attr? name with
      | some (.relation elements) => elements.flatMap (Object.reach rest)
      | some (.object inner) => inner.reach rest
      | some (.value content) =>
          match rest with
          | [] => [.ok (.value content)]
          | next :: _ => [.error (.noAttributes next content.kind)]
      | none => [.error (.missingAttribute name)]

/-- The items up to the first error, which is kept. -/
def cutAfterError {ε α : Type} : List (Except ε α) → List (Except ε α)
  | [] => []
  | .ok item :: rest => .ok item :: cutAfterError rest
  | .error fault :: _ => [.error fault]

/-- All items, or the first error among them. -/
def allOrError {ε α : Type} : List (Except ε α) → Except ε (List α)
  | [] => .ok []
  | .ok item :: rest => (allOrError rest).map (item :: ·)
  | .error fault :: _ => .error fault

theorem Fields.sizeOf_get?_lt {α : Type} [SizeOf α] {fields : Fields α} {key : String} {value : α}
    (found : fields.get? key = some value) : sizeOf value < sizeOf fields := by
  have inside := List.sizeOf_lt_of_mem (Fields.mem_of_get?_eq_some found)
  simp only [Prod.mk.sizeOf_spec] at inside
  omega

theorem Object.sizeOf_attr?_lt {o : Object} {name : String} {attr : Attr}
    (found : o.attr? name = some attr) : sizeOf attr < sizeOf o := by
  cases o with
  | mk attrs =>
      have := Fields.sizeOf_get?_lt (show Fields.get? attrs name = some attr from found)
      simp only [Object.mk.sizeOf_spec]
      omega

/-- A part of a walk that is still to be done: elements to go on from, in order, each along the rest
of the chain. -/
structure Walker.Frame where
  elements : List Object
  chain : List String

/-- A walk under way: the parts of it that are still to be done, the innermost first. -/
structure Walker where
  pending : List Walker.Frame

namespace Walker

def start (root : Object) (chain : List String) : Walker :=
  ⟨[⟨[root], chain⟩]⟩

/-- The size of everything that is pending. -/
noncomputable def weight (walker : Walker) : Nat :=
  walker.pending.foldr (fun frame rest => sizeOf frame.elements + rest) 0

theorem weight_nil : (Walker.mk []).weight = 0 :=
  rfl

theorem weight_cons (frame : Frame) (outer : List Frame) :
    (Walker.mk (frame :: outer)).weight = sizeOf frame.elements + (Walker.mk outer).weight :=
  rfl

/-- The next item of a walk, and the walk after it.  After an error nothing is pending. -/
def next? : Walker → Option (Except Fault Node × Walker)
  | ⟨[]⟩ => none
  | ⟨⟨[], _⟩ :: outer⟩ => next? ⟨outer⟩
  | ⟨⟨o :: more, []⟩ :: outer⟩ => some (.ok (.object o), ⟨⟨more, []⟩ :: outer⟩)
  | ⟨⟨o :: more, name :: chain⟩ :: outer⟩ =>
      match _found : o.attr? name with
      | some (.relation elements) => next? ⟨⟨elements, chain⟩ :: ⟨more, name :: chain⟩ :: outer⟩
      | some (.object inner) => next? ⟨⟨[inner], chain⟩ :: ⟨more, name :: chain⟩ :: outer⟩
      | some (.value content) =>
          match chain with
          | [] => some (.ok (.value content), ⟨⟨more, [name]⟩ :: outer⟩)
          | next :: _ => some (.error (.noAttributes next content.kind), ⟨[]⟩)
      | none => some (.error (.missingAttribute name), ⟨[]⟩)
termination_by walker => walker.weight
decreasing_by
  · simp only [weight_cons, List.nil.sizeOf_spec]
    omega
  · have smaller := Object.sizeOf_attr?_lt _found
    simp only [weight_cons, Attr.relation.sizeOf_spec, List.cons.sizeOf_spec] at *
    omega
  · have smaller := Object.sizeOf_attr?_lt _found
    simp only [weight_cons, Attr.object.sizeOf_spec, List.cons.sizeOf_spec,
      List.nil.sizeOf_spec] at *
    omega

theorem weight_lt_of_next?_eq_some {walker after : Walker} {item : Except Fault Node}
    (yields : walker.next? = some (item, after)) : after.weight < walker.weight := by
  fun_induction next? walker with
  | case1 => cases yields
  | case2 chain outer ih =>
      have below := ih yields
      simp only [weight_cons] at *
      omega
  | case3 o more outer =>
      cases yields
      simp only [weight_cons, List.cons.sizeOf_spec]
      omega
  | case4 o more name chain outer elements found ih =>
      have smaller := Object.sizeOf_attr?_lt found
      have below := ih yields
      simp only [weight_cons, Attr.relation.sizeOf_spec, List.cons.sizeOf_spec] at *
      omega
  | case5 o more name chain outer inner found ih =>
      have smaller := Object.sizeOf_attr?_lt found
      have below := ih yields
      simp only [weight_cons, Attr.object.sizeOf_spec, List.cons.sizeOf_spec,
        List.nil.sizeOf_spec] at *
      omega
  | case6 o more name outer content found =>
      cases yields
      simp only [weight_cons, List.cons.sizeOf_spec]
      omega
  | case7 o more name outer content found next chain =>
      cases yields
      simp only [weight_nil, weight_cons, List.cons.sizeOf_spec]
      omega
  | case8 o more name chain outer found =>
      cases yields
      simp only [weight_nil, weight_cons, List.cons.sizeOf_spec]
      omega

def toList (walker : Walker) : List (Except Fault Node) :=
  match _yields : walker.next? with
  | none => []
  | some (item, after) => item :: after.toList
termination_by walker.weight
decreasing_by exact weight_lt_of_next?_eq_some _yields

/-- The first items of a walk, at most as many as given, and the walk after them. -/
def take : Nat → Walker → List (Except Fault Node) × Walker
  | 0, walker => ([], walker)
  | count + 1, walker =>
      match walker.next? with
      | none => ([], walker)
      | some (item, after) =>
          let later := take count after
          (item :: later.1, later.2)

end Walker

end GraphTemplate
