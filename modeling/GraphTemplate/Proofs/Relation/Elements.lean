import GraphTemplate.Proofs.Relation.Uniqueness
import GraphTemplate.Relation.Walk

/-!
# Elements at the end of a chain

A walk along a chain yields what `Object.reach` lists, up to the first error.  If it yields nothing
but objects, these are the elements at the end of the chain.  The elements at the end of two chains
in a row are those that the second chain leads to from each element at the end of the first.

A route is found by the first elements of relations.  The object that these lead to is the first
element at the end of the chain, and from there the rest of the route is found alone.
-/

namespace GraphTemplate

namespace Walker

/-- Everything that the pending elements lead to. -/
def ahead (walker : Walker) : List (Except Fault Node) :=
  walker.pending.flatMap fun frame => frame.elements.flatMap (Object.reach frame.chain)

theorem ahead_cons (elements : List Object) (chain : List String) (outer : List Frame) :
    (Walker.mk (⟨elements, chain⟩ :: outer)).ahead =
      elements.flatMap (Object.reach chain) ++ (Walker.mk outer).ahead :=
  rfl

theorem cutAfterError_ahead (walker : Walker) :
    cutAfterError walker.ahead =
      match walker.next? with
      | none => []
      | some (item, after) => item :: cutAfterError after.ahead := by
  fun_induction next? walker with
  | case1 => rfl
  | case2 chain outer ih => exact ih
  | case3 o more outer => simp [ahead_cons, Object.reach, cutAfterError]
  | case4 o more name chain outer elements found ih =>
      rw [← ih]
      simp [ahead_cons, Object.reach, found]
  | case5 o more name chain outer inner found ih =>
      rw [← ih]
      simp [ahead_cons, Object.reach, found]
  | case6 o more name outer content found =>
      simp [ahead_cons, Object.reach, found, cutAfterError]
  | case7 o more name outer content found next chain =>
      simp [ahead, Object.reach, found, cutAfterError]
  | case8 o more name chain outer found =>
      simp [ahead, Object.reach, found, cutAfterError]

theorem toList_eq_cutAfterError_ahead (walker : Walker) :
    walker.toList = cutAfterError walker.ahead := by
  fun_induction toList walker with
  | case1 walker finished => rw [cutAfterError_ahead, finished]
  | case2 walker item after yields ih => rw [cutAfterError_ahead, yields, ih]

theorem toList_start (root : Object) (chain : List String) :
    (start root chain).toList = cutAfterError (root.reach chain) := by
  rw [toList_eq_cutAfterError_ahead]
  simp [ahead, start]

end Walker

namespace Node

/-- The object that an item of a walk is. -/
def object? : Except Fault Node → Option Object
  | .ok (.object content) => some content
  | _ => none

theorem mapM_object?_cutAfterError (items : List (Except Fault Node)) :
    (cutAfterError items).mapM object? = items.mapM object? := by
  induction items with
  | nil => rfl
  | cons item rest ih =>
      cases item with
      | ok node => simp [cutAfterError, ih]
      | error fault => simp [cutAfterError, object?]

end Node

theorem Fields.get?_eq_some_of_mem {α : Type} {fields : Fields α} {key : String} {value : α}
    (distinct : fields.Distinct) (member : (key, value) ∈ fields) :
    fields.get? key = some value := by
  induction fields with
  | nil => cases member
  | cons entry rest ih =>
      rcases entry with ⟨name, first⟩
      simp only [Fields.Distinct, Fields.keys_cons, List.nodup_cons] at distinct
      rw [Fields.get?_cons]
      rcases List.mem_cons.mp member with same | later
      · cases same
        rw [if_pos rfl]
      · have different : name ≠ key := by
          rintro rfl
          exact distinct.1 (List.mem_map_of_mem later)
        rw [if_neg different]
        exact ih distinct.2 later

section

variable {α β γ : Type}

theorem mapM_flatMap_eq_flatMapM (items : List α) (each : α → List β) (f : β → Option γ) :
    (items.flatMap each).mapM f = items.flatMapM fun item => (each item).mapM f := by
  induction items with
  | nil => rfl
  | cons item rest ih => simp [ih]

theorem flatMapM_append (front back : List α) (f : α → Option (List β)) :
    (front ++ back).flatMapM f = do
      let first ← front.flatMapM f
      let second ← back.flatMapM f
      return first ++ second := by
  induction front with
  | nil => simp
  | cons item rest ih => simp [ih, Option.bind_assoc]

/-- Both steps of a collection may fail, and it does not matter which of them is taken for all items
first. -/
theorem flatMapM_flatMapM (items : List α) (f : α → Option (List β)) (g : β → Option (List γ)) :
    (items.flatMapM f >>= fun found => found.flatMapM g) =
      items.flatMapM fun item => f item >>= fun found => found.flatMapM g := by
  induction items with
  | nil => rfl
  | cons item rest ih =>
      rw [List.flatMapM_cons, List.flatMapM_cons, ← ih]
      cases f item with
      | none => rfl
      | some found =>
          cases rest.flatMapM f with
          | none => cases reached : found.flatMapM g <;> simp [reached]
          | some others => simp [flatMapM_append]

end

namespace Object

/-- The elements at the end of a chain, if a walk along it yields nothing but objects. -/
def elementsAlong? (steps : List String) (o : Object) : Option (List Object) :=
  (Walker.start o steps).toList.mapM Node.object?

theorem elementsAlong?_eq_mapM_reach (steps : List String) (o : Object) :
    o.elementsAlong? steps = (o.reach steps).mapM Node.object? := by
  rw [elementsAlong?, Walker.toList_start, Node.mapM_object?_cutAfterError]

@[simp]
theorem elementsAlong?_nil (o : Object) : o.elementsAlong? [] = some [o] := by
  simp [elementsAlong?_eq_mapM_reach, reach, Node.object?]

theorem elementsAlong?_cons (name : String) (rest : List String) (o : Object) :
    o.elementsAlong? (name :: rest) =
      match o.attr? name with
      | some (.relation elements) => elements.flatMapM (elementsAlong? rest)
      | some (.object inner) => inner.elementsAlong? rest
      | _ => none := by
  have eachReach : elementsAlong? rest = fun element => (element.reach rest).mapM Node.object? :=
    funext fun element => elementsAlong?_eq_mapM_reach rest element
  rw [elementsAlong?_eq_mapM_reach, reach]
  rcases o.attr? name with _ | (content | inner | elements)
  · simp [Node.object?]
  · cases rest <;> simp [Node.object?]
  · simp only [eachReach]
  · simp only [eachReach, mapM_flatMap_eq_flatMapM]

theorem elementsAlong?_append (front back : List String) (o : Object) :
    o.elementsAlong? (front ++ back) =
      o.elementsAlong? front >>= fun elements => elements.flatMapM (elementsAlong? back) := by
  induction front generalizing o with
  | nil => simp
  | cons name rest ih =>
      rw [List.cons_append, elementsAlong?_cons, elementsAlong?_cons]
      rcases o.attr? name with _ | (content | inner | elements)
      · rfl
      · rfl
      · exact ih inner
      · simp only [funext ih, flatMapM_flatMapM]

/-- The object to which the first elements of relations lead. -/
inductive FirstAlong : List String → Object → Object → Prop where
  | here (o : Object) : FirstAlong [] o o
  | onward {name : String} {rest : List String} {o first reached : Object} {others : List Object}
      (exposed : o.relation? name = some (first :: others))
      (further : FirstAlong rest first reached) : FirstAlong (name :: rest) o reached

theorem attr?_eq_of_relation? {o : Object} {name : String} {elements : List Object}
    (exposed : o.relation? name = some elements) : o.attr? name = some (.relation elements) := by
  unfold relation? at exposed
  split at exposed
  · rename_i found
    cases exposed
    exact found
  · cases exposed

theorem FirstAlong.head?_reach {steps : List String} {o reached : Object}
    (first : FirstAlong steps o reached) :
    (o.reach steps).head? = some (.ok (.object reached)) := by
  induction first with
  | here o => rfl
  | onward exposed further ih =>
      rw [reach, attr?_eq_of_relation? exposed]
      simp [List.head?_append, ih]

theorem FirstAlong.head?_elements {steps : List String} {o reached : Object}
    {elements : List Object} (first : FirstAlong steps o reached)
    (along : o.elementsAlong? steps = some elements) : elements.head? = some reached := by
  rw [elementsAlong?_eq_mapM_reach] at along
  have head := first.head?_reach
  cases items : o.reach steps with
  | nil => simp [items] at head
  | cons item rest =>
      rw [items] at along head
      simp only [List.head?_cons, Option.some.injEq] at head
      subst head
      simp only [List.mapM_cons, Node.object?] at along
      cases others : rest.mapM Node.object? with
      | none => simp [others] at along
      | some found =>
          simp only [others, Option.bind_eq_bind, Option.bind_some, Option.pure_def,
            Option.some.injEq] at along
          simp [← along]

theorem attrsNamesDistinct_of_mem {attrs : List (String × Attr)} {entry : String × Attr}
    (distinct : AttrsNamesDistinct attrs) (member : entry ∈ attrs) : entry.2.NamesDistinct := by
  induction attrs with
  | nil => cases member
  | cons first rest ih =>
      rcases List.mem_cons.mp member with rfl | later
      · exact distinct.1
      · exact ih distinct.2 later

theorem elementsNamesDistinct_of_mem {elements : List Object} {element : Object}
    (distinct : ElementsNamesDistinct elements) (member : element ∈ elements) :
    element.NamesDistinct := by
  induction elements with
  | nil => cases member
  | cons first rest ih =>
      rcases List.mem_cons.mp member with rfl | later
      · exact distinct.1
      · exact ih distinct.2 later

theorem namesDistinct_of_relation? {o element : Object} {name : String} {elements : List Object}
    (distinct : o.NamesDistinct) (exposed : o.relation? name = some elements)
    (member : element ∈ elements) : element.NamesDistinct := by
  rcases o with ⟨attrs⟩
  have entryMem := Fields.mem_of_get?_eq_some (attr?_eq_of_relation? exposed)
  exact elementsNamesDistinct_of_mem (attrsNamesDistinct_of_mem distinct.2 entryMem) member

theorem relation?_of_mem_samples {o first : Object} {name : String} (distinct : o.NamesDistinct)
    (member : (name, first) ∈ o.samples) :
    ∃ others, o.relation? name = some (first :: others) := by
  rcases o with ⟨attrs⟩
  simp only [samples, relations, Object.attrs, List.mem_filterMap, Option.map_eq_some_iff,
    Prod.mk.injEq] at member
  rcases member with ⟨⟨_, elements⟩, ⟨⟨_, attr⟩, entryMem, isRelation⟩, _, isFirst, rfl, rfl⟩
  cases attr with
  | value content => simp at isRelation
  | object content => simp at isRelation
  | relation found =>
      simp only [Option.some.injEq, Prod.mk.injEq] at isRelation
      rcases isRelation with ⟨rfl, rfl⟩
      have found := Fields.get?_eq_some_of_mem distinct.1 entryMem
      rcases List.head?_eq_some_iff.mp isFirst with ⟨others, rfl⟩
      refine ⟨others, ?_⟩
      simp [relation?, attr?, Object.attrs, found]

end Object

namespace Leads

variable {relation owner : String} {object : Object}

theorem single_iff {positions : List Nat} {route : Route} :
    Leads relation [(owner, object)] positions route ↔
      ((object.relation? relation).isSome ∧ positions = [0] ∧ route = ⟨owner, [relation]⟩) ∨
      (object.relation? relation = none ∧ ∃ further inner, positions = 0 :: further ∧
        route = inner.under owner ∧ Leads relation object.samples further inner) := by
  constructor
  · intro leads
    cases leads with
    | @direct _ position _ _ found exposed =>
        rcases position with _ | position
        · cases found
          exact Or.inl ⟨exposed, rfl, rfl⟩
        · simp at found
    | @through _ position _ _ _ _ unexposed found onward =>
        rcases position with _ | position
        · cases found
          exact Or.inr ⟨unexposed _ List.mem_cons_self, _, _, rfl, rfl, onward⟩
        · simp at found
  · rintro (⟨exposed, rfl, rfl⟩ | ⟨unexposed, further, inner, rfl, rfl, onward⟩)
    · exact .direct rfl exposed
    · exact .through (by simpa using unexposed) rfl onward

theorem exists_front {candidates : List (String × Object)} {positions : List Nat} {route : Route}
    (leads : Leads relation candidates positions route) :
    ∃ front, route.steps = front ++ [relation] := by
  induction leads with
  | direct found exposed => exact ⟨[], rfl⟩
  | @through _ _ _ _ _ inner unexposed found onward ih =>
      rcases ih with ⟨front, same⟩
      exact ⟨inner.owner :: front, congrArg (inner.owner :: ·) same⟩

theorem steps_ne_nil {candidates : List (String × Object)} {positions : List Nat} {route : Route}
    (leads : Leads relation candidates positions route) : route.steps ≠ [] := by
  rcases leads.exists_front with ⟨front, same⟩
  simp [same]

end Leads

namespace LeadsOnly

variable {relation owner : String} {object : Object}

theorem single_of_exposed (exposed : (object.relation? relation).isSome) :
    LeadsOnly relation [(owner, object)] ⟨owner, [relation]⟩ := by
  refine ⟨[0], .direct rfl exposed, ?_⟩
  intro positions route leads
  rcases Leads.single_iff.mp leads with ⟨_, same, sameRoute⟩ | ⟨unexposed, _⟩
  · exact ⟨same, sameRoute⟩
  · simp [unexposed] at exposed

theorem relation?_eq_none {route : Route} (only : LeadsOnly relation [(owner, object)] route)
    (longer : 1 < route.steps.length) : object.relation? relation = none := by
  rw [← Option.not_isSome_iff_eq_none]
  intro exposed
  rcases only with ⟨_, leads, _⟩
  have direct : LeadsOnly relation [(owner, object)] ⟨owner, [relation]⟩ := single_of_exposed exposed
  rcases direct with ⟨_, _, unique⟩
  rw [(unique _ _ leads).2] at longer
  exact Nat.lt_irrefl 1 longer

theorem single_iff_samples {route : Route} (unexposed : object.relation? relation = none) :
    LeadsOnly relation [(owner, object)] (route.under owner) ↔
      LeadsOnly relation object.samples route := by
  constructor
  · rintro ⟨positions, leads, unique⟩
    rcases Leads.single_iff.mp leads with ⟨exposed, _⟩ | ⟨_, further, inner, rfl, same, onward⟩
    · simp [unexposed] at exposed
    · rcases route with ⟨start, steps⟩
      rcases inner with ⟨innerStart, innerSteps⟩
      cases same
      refine ⟨further, onward, ?_⟩
      intro otherPositions other otherLeads
      have whole : Leads relation [(owner, object)] (0 :: otherPositions) (other.under owner) :=
        Leads.single_iff.mpr
          (Or.inr ⟨unexposed, otherPositions, other, rfl, rfl, otherLeads⟩)
      rcases unique _ _ whole with ⟨samePositions, sameRoute⟩
      cases samePositions
      cases sameRoute
      exact ⟨rfl, rfl⟩
  · rintro ⟨positions, leads, unique⟩
    refine ⟨0 :: positions, Leads.single_iff.mpr
      (Or.inr ⟨unexposed, positions, route, rfl, rfl, leads⟩), ?_⟩
    intro otherPositions other otherLeads
    rcases Leads.single_iff.mp otherLeads with ⟨exposed, _⟩ | ⟨_, further, inner, rfl, rfl, onward⟩
    · simp [unexposed] at exposed
    · rcases unique _ _ onward with ⟨rfl, rfl⟩
      exact ⟨rfl, rfl⟩

theorem owner_eq {route : Route} (only : LeadsOnly relation [(owner, object)] route) :
    route.owner = owner := by
  rcases only with ⟨positions, leads, _⟩
  rcases Leads.single_iff.mp leads with ⟨_, _, rfl⟩ | ⟨_, _, _, _, rfl, _⟩ <;> rfl

/-- The route from a single candidate does not depend on the name of the candidate. -/
theorem rename {steps : List String} (only : LeadsOnly relation [(owner, object)] ⟨owner, steps⟩)
    (other : String) : LeadsOnly relation [(other, object)] ⟨other, steps⟩ := by
  rcases only with ⟨positions, leads, unique⟩
  rcases Leads.single_iff.mp leads with ⟨exposed, _, same⟩ | ⟨unexposed, _, inner, _, same, _⟩
  · cases same
    exact single_of_exposed exposed
  · cases same
    have below := (single_iff_samples unexposed).mp ⟨positions, leads, unique⟩
    have renamed : LeadsOnly relation [(other, object)] (inner.under other) :=
      (single_iff_samples unexposed).mpr below
    exact renamed

theorem of_samples {candidates : List (String × Object)} {name : String} {steps : List String}
    (only : LeadsOnly relation candidates ⟨name, steps⟩) :
    ∃ first, (name, first) ∈ candidates ∧ LeadsOnly relation [(name, first)] ⟨name, steps⟩ := by
  rcases only with ⟨positions, leads, unique⟩
  generalize routeEq : (⟨name, steps⟩ : Route) = route at leads unique
  cases leads with
  | direct found exposed =>
      cases routeEq
      exact ⟨_, List.mem_of_getElem? found, single_of_exposed exposed⟩
  | @through _ position owner first further inner unexposed found onward =>
      cases routeEq
      have member := List.mem_of_getElem? found
      refine ⟨first, member, (single_iff_samples (unexposed _ member)).mpr ⟨further, onward, ?_⟩⟩
      intro otherPositions other otherLeads
      rcases unique _ _ (.through unexposed found otherLeads) with ⟨samePositions, sameRoute⟩
      rcases inner with ⟨start, innerSteps⟩
      rcases other with ⟨otherStart, otherSteps⟩
      cases samePositions
      cases sameRoute
      exact ⟨rfl, rfl⟩

theorem onward {name : String} {steps : List String}
    (only : LeadsOnly relation [(owner, object)] ⟨owner, name :: steps⟩) (more : steps ≠ []) :
    ∃ first, (name, first) ∈ object.samples ∧
      LeadsOnly relation [(owner, first)] ⟨owner, steps⟩ := by
  have longer : 1 < (name :: steps).length := Nat.succ_lt_succ (List.length_pos_iff.mpr more)
  have below : LeadsOnly relation object.samples ⟨name, steps⟩ :=
    (single_iff_samples (only.relation?_eq_none longer)).mp only
  rcases below.of_samples with ⟨first, firstMem, onlyFirst⟩
  exact ⟨first, firstMem, onlyFirst.rename owner⟩

/-- The rest of a route is found alone from the object that its beginning leads to by first
elements. -/
theorem along {front back : List String} (distinct : object.NamesDistinct)
    (only : LeadsOnly relation [(owner, object)] ⟨owner, front ++ back⟩) (more : back ≠ []) :
    ∃ reached, Object.FirstAlong front object reached ∧ reached.NamesDistinct ∧
      LeadsOnly relation [(owner, reached)] ⟨owner, back⟩ := by
  induction front generalizing object with
  | nil => exact ⟨object, .here object, distinct, only⟩
  | cons name rest ih =>
      rcases only.onward (by simp [more]) with ⟨first, firstMem, onlyFirst⟩
      rcases Object.relation?_of_mem_samples distinct firstMem with ⟨others, exposed⟩
      have firstDistinct := Object.namesDistinct_of_relation? distinct exposed List.mem_cons_self
      rcases ih firstDistinct onlyFirst with ⟨reached, further, reachedDistinct, onlyReached⟩
      exact ⟨reached, .onward exposed further, reachedDistinct, onlyReached⟩

end LeadsOnly

end GraphTemplate
