import GraphTemplate.Expansion
import GraphTemplate.Proofs.Discovery
import GraphTemplate.Proofs.Relation.Outline

/-!
# Uniform graphs

In a uniform graph all objects that can be bound to one name have the same outline.  Then what an
unbound name stands for depends only on which names are bound and which of them innermost, and
whatever is bound to a name in the course of an expansion is one of the objects of that name.
-/

namespace GraphTemplate

mutual

/-- All objects in the graph below an object, under the names of the attributes that hold them. -/
def Object.placed : Object → List (String × Object)
  | .mk attrs => Object.attrsPlaced attrs

def Object.attrsPlaced : List (String × Attr) → List (String × Object)
  | [] => []
  | (_, .value _) :: rest => Object.attrsPlaced rest
  | (name, .object content) :: rest => (name, content) :: content.placed ++ Object.attrsPlaced rest
  | (name, .relation elements) :: rest =>
      Object.elementsPlaced name elements ++ Object.attrsPlaced rest

/-- All objects in the graph from the elements of a relation on. -/
def Object.elementsPlaced (name : String) : List Object → List (String × Object)
  | [] => []
  | element :: rest => (name, element) :: element.placed ++ Object.elementsPlaced name rest

end

/-- The root and the objects below it, under the names of the attributes that hold them; the root is
held under the plural of its own name. -/
def Object.everywhere (name : String) (root : Object) : List (String × Object) :=
  (plural name, root) :: root.placed

/-- Objects that are held under the same name have the same outline. -/
def Object.Uniform (name : String) (root : Object) : Prop :=
  ∀ first ∈ root.everywhere name, ∀ second ∈ root.everywhere name,
    first.1 = second.1 → first.2.outline = second.2.outline

instance (name : String) (root : Object) : Decidable (root.Uniform name) :=
  inferInstanceAs (Decidable (∀ first ∈ root.everywhere name, ∀ second ∈ root.everywhere name,
    first.1 = second.1 → first.2.outline = second.2.outline))

def Attr.objects : Attr → List Object
  | .value _ => []
  | .object content => [content]
  | .relation elements => elements

namespace Object

theorem mem_elementsPlaced (name : String) {elements : List Object} {element : Object}
    (member : element ∈ elements) :
    (name, element) ∈ elementsPlaced name elements ∧
      element.placed ⊆ elementsPlaced name elements := by
  induction elements with
  | nil => cases member
  | cons first rest ih =>
      rw [elementsPlaced]
      rcases List.mem_cons.mp member with rfl | later
      · exact ⟨List.mem_cons_self, fun _ inside =>
          List.mem_cons_of_mem _ (List.mem_append_left _ inside)⟩
      · rcases ih later with ⟨placed, below⟩
        exact ⟨List.mem_cons_of_mem _ (List.mem_append_right _ placed), fun _ inside =>
          List.mem_cons_of_mem _ (List.mem_append_right _ (below inside))⟩

theorem mem_attrsPlaced {attrs : List (String × Attr)} {name : String} {attr : Attr}
    {object : Object} (held : (name, attr) ∈ attrs) (member : object ∈ attr.objects) :
    (name, object) ∈ attrsPlaced attrs ∧ object.placed ⊆ attrsPlaced attrs := by
  induction attrs with
  | nil => cases held
  | cons entry rest ih =>
      rcases List.mem_cons.mp held with rfl | later
      · cases attr with
        | value content => cases member
        | object content =>
            rw [List.mem_singleton.mp member]
            exact ⟨List.mem_cons_self, fun _ inside =>
              List.mem_cons_of_mem _ (List.mem_append_left _ inside)⟩
        | relation elements =>
            rcases mem_elementsPlaced name member with ⟨placed, below⟩
            exact ⟨List.mem_append_left _ placed, fun _ inside =>
              List.mem_append_left _ (below inside)⟩
      · rcases ih later with ⟨placed, below⟩
        have behind : attrsPlaced rest ⊆ attrsPlaced (entry :: rest) := by
          rcases entry with ⟨first, content | content | others⟩
          · exact fun _ inside => inside
          · exact fun _ inside => List.mem_cons_of_mem _ (List.mem_append_right _ inside)
          · exact fun _ inside => List.mem_append_right _ inside
        exact ⟨behind placed, fun _ inside => behind (below inside)⟩

theorem mem_reach_cons {name : String} {rest : List String} {o reached : Object} :
    .ok (.object reached) ∈ o.reach (name :: rest) ↔
      ∃ attr, o.attr? name = some attr ∧
        ∃ object ∈ attr.objects, .ok (.object reached) ∈ object.reach rest := by
  rw [reach]
  rcases o.attr? name with _ | (content | inner | elements)
  · simp
  · cases rest <;> simp [Attr.objects]
  · simp [Attr.objects]
  · simp [Attr.objects]

theorem mem_reach_append {front back : List String} {o middle reached : Object}
    (member : .ok (.object middle) ∈ o.reach front)
    (further : .ok (.object reached) ∈ middle.reach back) :
    .ok (.object reached) ∈ o.reach (front ++ back) := by
  induction front generalizing o with
  | nil =>
      simp only [reach, List.mem_singleton, Except.ok.injEq, Node.object.injEq] at member
      subst member
      exact further
  | cons name rest ih =>
      rcases mem_reach_cons.mp member with ⟨attr, found, object, objectMem, inside⟩
      exact mem_reach_cons.mpr ⟨attr, found, object, objectMem, ih inside⟩

theorem mem_placed_of_mem_reach {front : List String} {name : String} {o reached : Object}
    (member : .ok (.object reached) ∈ o.reach (front ++ [name])) : (name, reached) ∈ o.placed := by
  induction front generalizing o with
  | nil =>
      rcases mem_reach_cons.mp member with ⟨attr, found, object, objectMem, inside⟩
      simp only [reach, List.mem_singleton, Except.ok.injEq, Node.object.injEq] at inside
      subst inside
      rcases o with ⟨attrs⟩
      exact (mem_attrsPlaced (Fields.mem_of_get?_eq_some found) objectMem).1
  | cons first rest ih =>
      rcases mem_reach_cons.mp member with ⟨attr, found, object, objectMem, inside⟩
      rcases o with ⟨attrs⟩
      exact (mem_attrsPlaced (Fields.mem_of_get?_eq_some found) objectMem).2 (ih inside)

end Object

theorem ok_mem_of_allOrError {ε α : Type} {items : List (Except ε α)} {values : List α} {value : α}
    (all : allOrError items = .ok values) (member : value ∈ values) : .ok value ∈ items := by
  induction items generalizing values with
  | nil =>
      cases all
      cases member
  | cons item rest ih =>
      rcases item with fault | first
      · cases all
      · rw [allOrError] at all
        rcases others : allOrError rest with fault | found
        · rw [others] at all
          cases all
        · rw [others] at all
          cases all
          rcases List.mem_cons.mp member with rfl | later
          · exact List.mem_cons_self
          · exact List.mem_cons_of_mem _ (ih others later)

theorem Node.eq_of_element_eq_ok {item : Except Fault Node} {object : Object}
    (same : Node.element item = .ok object) : item = .ok (.object object) := by
  rcases item with fault | (content | content)
  · cases same
  · cases same
    rfl
  · cases same

namespace Scope

theorem discover_eq_ok_iff {scope : Scope} {name : String} {finding : Finding} :
    scope.discover name = .ok finding ↔
      (∃ route, scope.relationRoute? name = .ok (some route) ∧ finding = .relation route) ∨
      scope.relationRoute? name = .ok none ∧
        ∃ route, findAttribute? scope.candidates name = .ok (some route) ∧
          finding = .attribute route := by
  unfold discover
  rcases scope.relationRoute? name with fault | (_ | route)
  · simp [Bind.bind, Except.bind]
  · rcases findAttribute? scope.candidates name with fault | (_ | route)
    · simp [Bind.bind, Except.bind]
    · simp [Bind.bind, Except.bind, throw, throwThe, MonadExceptOf.throw]
    · simp [Bind.bind, Except.bind, pure, Except.pure, eq_comm]
  · simp [Bind.bind, Except.bind, pure, Except.pure, eq_comm]

theorem exists_front_of_findRelation? {candidates : Fields Object} {name : String} {route : Route}
    (found : findRelation? candidates name = .ok (some route)) :
    ∃ front, route.steps = front ++ [plural name] := by
  rw [findRelation?_eq_searchLevel] at found
  rcases searchLevel_eq_some_iff.mp found with ⟨positions, leads, _⟩
  exact leads.exists_front

theorem exists_front_of_discover {scope : Scope} {name : String} {route : Route}
    (found : scope.discover name = .ok (.relation route)) :
    ∃ front, route.steps = front ++ [plural name] := by
  rcases discover_eq_ok_iff.mp found with ⟨_, some, same⟩ | ⟨_, _, _, same⟩
  · cases same
    rcases relationRoute?_eq_some_iff.mp some with nearest | ⟨_, searched⟩
    · exact exists_front_of_findRelation? nearest
    · exact exists_front_of_findRelation? searched
  · cases same

theorem exists_binding {scope : Scope} {name : String} {object : Object}
    (meaning : scope.lookup? name = some object) :
    ∃ binding ∈ scope.bindings, binding.name = name ∧ binding.object = object := by
  rcases Option.map_eq_some_iff.mp meaning with ⟨binding, found, same⟩
  have bears := List.find?_some found
  exact ⟨binding, List.mem_of_find?_eq_some found, by simpa using bears, same⟩

/-- An object can be bound to a name if it is the root and the name is that of the root, or if it is
at the end of a chain from the root that ends in the plural of the name. -/
def Bindable (rootName : String) (root : Object) (name : String) (object : Object) : Prop :=
  name = rootName ∧ object = root ∨
    ∃ front, .ok (.object object) ∈ root.reach (front ++ [plural name])

/-- Everything that is bound can be bound to its name. -/
def Fits (rootName : String) (root : Object) (scope : Scope) : Prop :=
  ∀ binding ∈ scope.bindings, Bindable rootName root binding.name binding.object

variable {rootName : String} {root : Object}

theorem Bindable.mem_everywhere {name : String} {object : Object}
    (bindable : Bindable rootName root name object) :
    (plural name, object) ∈ root.everywhere rootName := by
  rcases bindable with ⟨rfl, rfl⟩ | ⟨front, reached⟩
  · exact List.mem_cons_self
  · exact List.mem_cons_of_mem _ (Object.mem_placed_of_mem_reach reached)

theorem Bindable.exists_reach {name : String} {object : Object}
    (bindable : Bindable rootName root name object) :
    ∃ chain, .ok (.object object) ∈ root.reach chain := by
  rcases bindable with ⟨_, rfl⟩ | ⟨front, reached⟩
  · exact ⟨[], List.mem_singleton_self _⟩
  · exact ⟨_, reached⟩

theorem Bindable.further {name next : String} {object reached : Object} {front : List String}
    (bindable : Bindable rootName root name object)
    (member : .ok (.object reached) ∈ object.reach (front ++ [plural next])) :
    Bindable rootName root next reached := by
  rcases bindable.exists_reach with ⟨chain, objectMem⟩
  refine Or.inr ⟨chain ++ front, ?_⟩
  rw [List.append_assoc]
  exact Object.mem_reach_append objectMem member

theorem fits_root : (Scope.root rootName root).Fits rootName root := by
  intro binding member
  rw [List.mem_singleton.mp member]
  exact Or.inl ⟨rfl, rfl⟩

theorem Fits.bind {scope : Scope} {name : String} {object : Object}
    (fits : scope.Fits rootName root) (bindable : Bindable rootName root name object) :
    (scope.bind name object).Fits rootName root := by
  intro binding member
  rcases List.mem_cons.mp member with rfl | outer
  · exact bindable
  · exact fits binding outer

theorem Fits.bindable_of_lookup? {scope : Scope} {name : String} {object : Object}
    (fits : scope.Fits rootName root) (meaning : scope.lookup? name = some object) :
    Bindable rootName root name object := by
  rcases exists_binding meaning with ⟨binding, member, rfl, rfl⟩
  exact fits binding member

theorem Fits.of_elements {scope : Scope} {name : String} {route : Route} {front : List String}
    {elements : List Object} {element : Object} (fits : scope.Fits rootName root)
    (steps : route.steps = front ++ [plural name]) (walked : scope.elements route = .ok elements)
    (member : element ∈ elements) : (scope.bind name element).Fits rootName root := by
  simp only [Scope.elements, Scope.owner] at walked
  rcases meaning : scope.lookup? route.owner with _ | object
  · rw [meaning] at walked
    cases walked
  · rw [meaning] at walked
    simp only [Bind.bind, Except.bind] at walked
    rcases List.mem_map.mp (ok_mem_of_allOrError walked member) with ⟨item, itemMem, same⟩
    rw [Node.eq_of_element_eq_ok same, steps] at itemMem
    exact fits.bind ((fits.bindable_of_lookup? meaning).further itemMem)

theorem Fits.of_discover {scope : Scope} {name : String} {route : Route} {elements : List Object}
    {element : Object} (fits : scope.Fits rootName root)
    (found : scope.discover name = .ok (.relation route))
    (walked : scope.elements route = .ok elements) (member : element ∈ elements) :
    (scope.bind name element).Fits rootName root := by
  rcases exists_front_of_discover found with ⟨front, steps⟩
  exact fits.of_elements steps walked member

theorem Fits.of_relation? {scope : Scope} {name : String} {elements : List Object}
    {element : Object} (fits : scope.Fits rootName root)
    (exposed : scope.relation? (plural name) = some elements) (member : element ∈ elements) :
    (scope.bind name element).Fits rootName root := by
  rcases List.exists_of_findSome?_eq_some exposed with ⟨binding, bindingMem, found⟩
  have reached : .ok (.object element) ∈ binding.object.reach ([] ++ [plural name]) :=
    Object.mem_reach_cons.mpr ⟨_, Object.attr?_eq_of_relation? found, element, member,
      List.mem_singleton_self _⟩
  exact fits.bind ((fits binding bindingMem).further reached)

section

variable {scope other : Scope}

theorem perm_keys_of_question_eq {name : String}
    (same : scope.question name = other.question name) :
    scope.candidates.keys.Perm other.candidates.keys := by
  have names : scope.names = other.names := congrArg Question.bound same
  have sorted : scope.names.Perm scope.candidates.keys := List.mergeSort_perm _ _
  have otherSorted : other.names.Perm other.candidates.keys := List.mergeSort_perm _ _
  rw [names] at sorted
  exact sorted.symm.trans otherSorted

theorem exists_candidate_of_question_eq (fits : scope.Fits rootName root)
    (otherFits : other.Fits rootName root) (uniform : root.Uniform rootName) {name : String}
    (same : scope.question name = other.question name) {key : String} {object : Object}
    (member : (key, object) ∈ scope.candidates) :
    ∃ otherObject, (key, otherObject) ∈ other.candidates ∧
      object.outline = otherObject.outline := by
  have distinct : scope.candidates.Distinct := Fields.distinct_ofList _
  have meaning : scope.lookup? key = some object := by
    rw [← get?_candidates]
    exact Fields.get?_eq_some_of_mem distinct member
  have keyMem : key ∈ other.candidates.keys :=
    (perm_keys_of_question_eq same).mem_iff.mp (List.mem_map_of_mem member)
  rw [← Fields.get?_isSome_iff, get?_candidates, Option.isSome_iff_exists] at keyMem
  rcases keyMem with ⟨otherObject, otherMeaning⟩
  refine ⟨otherObject, Fields.mem_of_get?_eq_some ((get?_candidates other key).trans otherMeaning), ?_⟩
  exact uniform _ (fits.bindable_of_lookup? meaning).mem_everywhere _
    (otherFits.bindable_of_lookup? otherMeaning).mem_everywhere rfl

theorem sameOutlines_candidates (fits : scope.Fits rootName root)
    (otherFits : other.Fits rootName root) (uniform : root.Uniform rootName) {name : String}
    (same : scope.question name = other.question name) :
    SameOutlines scope.candidates other.candidates where
  distinct := Fields.distinct_ofList _
  otherDistinct := Fields.distinct_ofList _
  forward _ _ member := exists_candidate_of_question_eq fits otherFits uniform same member
  backward _ _ member := exists_candidate_of_question_eq otherFits fits uniform same.symm member

theorem sameOutlines_innermost (fits : scope.Fits rootName root)
    (otherFits : other.Fits rootName root) (uniform : root.Uniform rootName)
    (same : scope.innermost.name = other.innermost.name) :
    SameOutlines [(scope.innermost.name, scope.innermost.object)]
      [(other.innermost.name, other.innermost.object)] := by
  have alike : scope.innermost.object.outline = other.innermost.object.outline :=
    uniform _ (fits _ List.mem_cons_self).mem_everywhere _
      (otherFits _ List.mem_cons_self).mem_everywhere (congrArg plural same)
  rw [← same]
  exact SameOutlines.single scope.innermost.name alike

theorem relationRoute?_of_sameOutlines {name : String} {answer : Option Route}
    (candidates : SameOutlines scope.candidates other.candidates)
    (innermost : SameOutlines [(scope.innermost.name, scope.innermost.object)]
      [(other.innermost.name, other.innermost.object)])
    (found : scope.relationRoute? name = .ok answer) : other.relationRoute? name = .ok answer := by
  rw [relationRoute?_eq] at found ⊢
  rcases first : findRelation? [(scope.innermost.name, scope.innermost.object)] name with
    fault | (_ | nearest)
  · rw [first] at found
    cases found
  · rw [first] at found
    rw [innermost.findRelation? first]
    exact candidates.findRelation? found
  · rw [first] at found
    rw [innermost.findRelation? first]
    exact found

/-- In a uniform graph the question decides the answer. -/
theorem discover_of_question_eq (fits : scope.Fits rootName root)
    (otherFits : other.Fits rootName root) (uniform : root.Uniform rootName) {name : String}
    {finding : Finding} (same : scope.question name = other.question name)
    (found : scope.discover name = .ok finding) : other.discover name = .ok finding := by
  have candidates := sameOutlines_candidates fits otherFits uniform same
  have innermost := sameOutlines_innermost fits otherFits uniform (congrArg Question.innermost same)
  rw [discover_eq_ok_iff] at found ⊢
  rcases found with ⟨route, some, rfl⟩ | ⟨none, route, some, rfl⟩
  · exact Or.inl ⟨route, relationRoute?_of_sameOutlines candidates innermost some, rfl⟩
  · exact Or.inr ⟨relationRoute?_of_sameOutlines candidates innermost none, route,
      candidates.findAttribute? some, rfl⟩

end

end Scope

end GraphTemplate
