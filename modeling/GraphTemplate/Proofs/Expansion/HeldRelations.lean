import GraphTemplate.Proofs.Expansion.Inquiries
import GraphTemplate.Proofs.Precedence

/-!
# Relations of bound elements

An element is bound for the relation at the end of a chain from another binding.  A name that is
resolved below should be found below the element, and not by entering the chain once more, which
would lead to the siblings of the element.  The chain is entered only from an element that leads
nowhere by itself, and then by way of the first of its siblings.
-/

namespace GraphTemplate

/-- An element is bound to a name in a scope for the relation at the end of a chain.  The chain
answered an inquiry for the name, or the relation was taken directly from the innermost binding that
exposes it. -/
inductive BoundFor (log : List Inquiry) (scope : Scope) (name : String) (element : Object) :
    Route → Prop where
  | discovered {chain : Route} {elements : List Object}
      (asked : ⟨scope, name, .ok (.relation chain)⟩ ∈ log)
      (walked : scope.elements chain = .ok elements) (member : element ∈ elements) :
      BoundFor log scope name element chain
  | exposed {owner : Binding} {elements : List Object}
      (first : scope.bindings.find? (fun binding =>
        (binding.object.relation? (plural name)).isSome) = some owner)
      (exposes : owner.object.relation? (plural name) = some elements)
      (member : element ∈ elements) :
      BoundFor log scope name element ⟨owner.name, [plural name]⟩

theorem plural_injective {name other : String} (same : plural name = plural other) :
    name = other := by
  have letters := congrArg String.toList same
  simp only [plural, String.toList_append, List.append_cancel_right_eq] at letters
  exact String.toList_inj.mp letters

namespace Object

theorem namesDistinct_of_mem_reach {o reached : Object} {chain : List String}
    (distinct : o.NamesDistinct) (member : .ok (.object reached) ∈ o.reach chain) :
    reached.NamesDistinct := by
  induction chain generalizing o with
  | nil =>
      simp only [reach, List.mem_singleton, Except.ok.injEq, Node.object.injEq] at member
      exact member ▸ distinct
  | cons name rest ih =>
      rcases mem_reach_cons.mp member with ⟨attr, found, object, objectMem, further⟩
      apply ih _ further
      rcases o with ⟨attrs⟩
      have held := attrsNamesDistinct_of_mem distinct.2 (Fields.mem_of_get?_eq_some found)
      cases attr with
      | value content => cases objectMem
      | object content => exact List.mem_singleton.mp objectMem ▸ held
      | relation elements => exact elementsNamesDistinct_of_mem held objectMem

theorem FirstAlong.mem_reach {steps : List String} {o reached : Object}
    (first : FirstAlong steps o reached) : .ok (.object reached) ∈ o.reach steps :=
  List.mem_of_mem_head? first.head?_reach

end Object

theorem BoundFor.exists_front {rootName name : String} {root element : Object} {memory : Memory}
    {log : List Inquiry} {scope : Scope} {chain : Route}
    (accounted : Accounted rootName root memory log)
    (boundFor : BoundFor log scope name element chain) :
    ∃ front, chain.steps = front ++ [plural name] := by
  cases boundFor with
  | discovered asked _ _ =>
      rcases accounted.answered _ asked _ rfl with ⟨origin, _, same, found⟩
      have names : origin.name = name := congrArg Question.name same
      exact names ▸ Scope.exists_front_of_discover found
  | exposed _ _ _ => exact ⟨[], rfl⟩

namespace Scope

variable {scope : Scope} {name bound : String} {chain route : Route} {rest : List String}

theorem isSome_lookup?_iff_of_names_eq {other : Scope} (same : scope.names = other.names) :
    (scope.lookup? name).isSome ↔ (other.lookup? name).isSome := by
  rw [← mem_names_iff, same, mem_names_iff]

theorem Fits.namesDistinct {rootName : String} {root : Object} (fits : scope.Fits rootName root)
    (distinct : root.NamesDistinct) :
    ∀ binding ∈ scope.bindings, binding.object.NamesDistinct := by
  intro binding member
  rcases (fits binding member).exists_reach with ⟨way, reached⟩
  exact Object.namesDistinct_of_mem_reach distinct reached

/-- A route that starts elsewhere than from the innermost binding was found among all candidates. -/
theorem leadsOnly_of_discover (found : scope.discover name = .ok (.relation route))
    (outside : route.owner ≠ scope.innermost.name) :
    LeadsOnly (plural name) scope.candidates route := by
  rcases discover_eq_ok_iff.mp found with ⟨_, some, same⟩ | ⟨_, _, _, same⟩
  · cases same
    rcases relationRoute?_eq_some_iff.mp some with nearest | ⟨_, among⟩
    · exact absurd (searchLevel_eq_some_iff.mp nearest).owner_eq outside
    · exact searchLevel_eq_some_iff.mp among
  · cases same

/-- How a discovered route can go through a chain that ends in the relation of a bound name, from an
owner that is not bound innermost: the object bound to the name leads nowhere, and the first element
at the end of the chain leads on. -/
theorem enters_of_discover (distinct : ∀ binding ∈ scope.bindings, binding.object.NamesDistinct)
    (found : scope.discover name = .ok (.relation route)) (unbound : scope.lookup? name = none)
    {other : Object} (meaning : scope.lookup? bound = some other)
    (outside : chain.owner ≠ scope.innermost.name) (apart : chain.owner ≠ bound)
    {front : List String} (ends : chain.steps = front ++ [plural bound])
    (owner : route.owner = chain.owner) (steps : route.steps = chain.steps ++ rest) :
    findRelation? [(bound, other)] name = .ok none ∧
      ∃ object first, scope.lookup? chain.owner = some object ∧
        Object.FirstAlong chain.steps object first ∧
        findRelation? [(bound, first)] name = .ok (some ⟨bound, rest⟩) := by
  have more : rest ≠ [] := by
    rintro rfl
    rcases exists_front_of_discover found with ⟨otherFront, otherEnds⟩
    rw [steps, List.append_nil, ends] at otherEnds
    cases plural_injective (List.cons.inj (List.append_inj_right' otherEnds rfl)).1
    rw [unbound] at meaning
    cases meaning
  have only := leadsOnly_of_discover found (owner ▸ outside)
  have candidatesDistinct : scope.candidates.Distinct := Fields.distinct_ofList _
  rcases route with ⟨start, routeSteps⟩
  cases owner
  cases steps
  rcases only.of_samples with ⟨object, objectMem, alone⟩
  have ownerMeaning : scope.lookup? chain.owner = some object := by
    rw [← get?_candidates]
    exact Fields.get?_eq_some_of_mem candidatesDistinct objectMem
  have objectDistinct : object.NamesDistinct := by
    rcases exists_binding ownerMeaning with ⟨binding, bindingMem, _, rfl⟩
    exact distinct binding bindingMem
  have longer : 1 < (chain.steps ++ rest).length := by
    have restLength := List.length_pos_iff.mpr more
    simp only [ends, List.length_append, List.length_singleton]
    omega
  have hidden := alone.relation?_eq_none longer
  constructor
  · have rivalMem : (bound, other) ∈ scope.candidates :=
      Fields.mem_of_get?_eq_some ((get?_candidates scope bound).trans meaning)
    have different : (bound, other) ≠ (chain.owner, object) :=
      fun same => apart (congrArg Prod.fst same).symm
    have noRival := (alone.iff_unrivalled candidatesDistinct objectMem).mp only _ rivalMem different
    rw [findRelation?_eq_searchLevel, searchLevel_eq_none_iff]
    exact fun positions otherRoute leads => noRival (Or.inr ⟨hidden, positions, otherRoute, leads⟩)
  · rcases alone.along objectDistinct more with ⟨first, along, _, onlyFirst⟩
    exact ⟨object, first, ownerMeaning, along, searchLevel_eq_some_iff.mpr (onlyFirst.rename bound)⟩

/-- A chain is held fixed in a scope: one of the bindings was made for the relation at its end, and
its owner has not been bound again since. -/
inductive Holds (log : List Inquiry) (scope : Scope) (bound : String) (chain : Route) : Prop where
  | intro {inner : List Binding} {element : Object} {outer : Scope}
      (live : scope.bindings = inner ++ ⟨bound, element⟩ :: outer.bindings)
      (boundFor : BoundFor log outer bound element chain)
      (apart : chain.owner ≠ bound)
      (unhidden : ∀ binding ∈ inner, chain.owner ≠ binding.name)

namespace Holds

variable {log : List Inquiry}

theorem isSome_lookup? (holds : scope.Holds log bound chain) : (scope.lookup? bound).isSome := by
  rcases holds with ⟨live, _, _, _⟩
  rw [lookup?, Option.isSome_map, List.find?_isSome, live]
  exact ⟨_, List.mem_append_right _ List.mem_cons_self, beq_self_eq_true bound⟩

theorem apart (holds : scope.Holds log bound chain) : chain.owner ≠ bound := by
  rcases holds with ⟨_, _, apart, _⟩
  exact apart

theorem owner_ne_innermost (holds : scope.Holds log bound chain) :
    chain.owner ≠ scope.innermost.name := by
  rcases holds with @⟨inner, element, outer, live, _, apart, unhidden⟩
  rcases inner with _ | ⟨first, within⟩
  · rw [(List.cons.inj live).1]
    exact apart
  · rw [(List.cons.inj live).1]
    exact unhidden first List.mem_cons_self

end Holds

end Scope

namespace Engine

variable {engine : Engine} {template : Template} {rootName bound : String} {root : Object}
  {inquiry : Inquiry} {chain route : Route}

/-- Whenever an unbound name is resolved to a chain that enters a relation which is held fixed, this
was found for the same question in a scope where the object of the relation leads nowhere, but the
first element of the relation leads on.  In uniform graphs it never happens. -/
theorem held_fixed (compiled : template.Compiled) (distinct : root.NamesDistinct)
    (asked : inquiry ∈ engine.inquiries template rootName root)
    (unbound : inquiry.scope.lookup? inquiry.name = none)
    (answer : inquiry.answer = .ok (.relation route))
    (holds : inquiry.scope.Holds (engine.inquiries template rootName root) bound chain) :
    (∀ rest, route.names = chain.names ++ rest →
      ∃ origin ∈ engine.inquiries template rootName root,
        origin.question = inquiry.question ∧ origin.discovery = .ok (.relation route) ∧
        ∃ other object first, origin.scope.lookup? bound = some other ∧
          findRelation? [(bound, other)] inquiry.name = .ok none ∧
          origin.scope.lookup? chain.owner = some object ∧
          Object.FirstAlong chain.steps object first ∧
          findRelation? [(bound, first)] inquiry.name = .ok (some ⟨bound, rest⟩)) ∧
    (root.Uniform rootName → ¬chain.names <+: route.names) := by
  rcases engine.accounted_inquiries rootName root compiled with ⟨memory, accounted⟩
  have ends : ∃ front, chain.steps = front ++ [plural bound] := by
    rcases holds with ⟨_, boundFor, _, _⟩
    exact boundFor.exists_front accounted
  rcases ends with ⟨front, ends⟩
  rcases accounted.answered inquiry asked _ answer with ⟨origin, originMem, same, found⟩
  have names : origin.name = inquiry.name := congrArg Question.name same
  have fits := accounted.fits origin originMem
  have boundNames : origin.scope.names = inquiry.scope.names := congrArg Question.bound same
  have outside : chain.owner ≠ origin.scope.innermost.name := by
    rw [show origin.scope.innermost.name = inquiry.scope.innermost.name from
      congrArg Question.innermost same]
    exact holds.owner_ne_innermost
  have entered : ∀ rest, route.names = chain.names ++ rest →
      ∃ other object first, origin.scope.lookup? bound = some other ∧
        findRelation? [(bound, other)] inquiry.name = .ok none ∧
        origin.scope.lookup? chain.owner = some object ∧
        Object.FirstAlong chain.steps object first ∧
        findRelation? [(bound, first)] inquiry.name = .ok (some ⟨bound, rest⟩) := by
    intro rest whole
    rcases List.cons.inj whole with ⟨owner, steps⟩
    rcases Option.isSome_iff_exists.mp ((Scope.isSome_lookup?_iff_of_names_eq boundNames).mpr
      holds.isSome_lookup?) with ⟨other, meaning⟩
    have stillUnbound : origin.scope.lookup? inquiry.name = none := by
      rw [← Option.not_isSome_iff_eq_none, Scope.isSome_lookup?_iff_of_names_eq boundNames, unbound]
      exact Bool.false_ne_true
    rw [Inquiry.discovery, names] at found
    rcases Scope.enters_of_discover (fits.namesDistinct distinct) found stillUnbound meaning outside
      holds.apart ends owner steps with ⟨nowhere, object, first, ownerMeaning, along, leadsOn⟩
    exact ⟨other, object, first, meaning, nowhere, ownerMeaning, along, leadsOn⟩
  constructor
  · exact fun rest whole => ⟨origin, originMem, same, found, entered rest whole⟩
  · rintro uniform ⟨rest, whole⟩
    rcases entered rest whole.symm with
      ⟨other, object, first, meaning, nowhere, ownerMeaning, along, leadsOn⟩
    have reached := along.mem_reach
    rw [ends] at reached
    have placed := ((fits.bindable_of_lookup? ownerMeaning).further reached).mem_everywhere
    have otherPlaced := (fits.bindable_of_lookup? meaning).mem_everywhere
    have outlines : first.outline = other.outline := uniform _ placed _ otherPlaced rfl
    rw [(SameOutlines.single bound outlines).findRelation? leadsOn] at nowhere
    cases nowhere

end Engine

/-- An object with a number. -/
def numberedEntry (number : Int64) : Object :=
  .mk [("v", .value (.integer number))]

/-- An item with an element of its own. -/
def fullItem (number : Int64) : Object :=
  .mk [("v", .value (.integer number)), ("xs", .relation [numberedEntry number])]

def fullItems : Object :=
  .mk [("items", .relation [fullItem 1, fullItem 2])]

/-- A line with an item and its elements. -/
def itemLine : Template :=
  ⟨"{item.v}{x.v}", .line ⟨[.placeholder ⟨⟨"item", ⟨1, 5⟩⟩, [⟨"v", ⟨6, 7⟩⟩], ⟨0, 8⟩⟩,
    .placeholder ⟨⟨"x", ⟨9, 10⟩⟩, [⟨"v", ⟨11, 12⟩⟩], ⟨8, 13⟩⟩], ⟨0, 13⟩⟩ .nil⟩

/-- While the second item is bound, the elements are those of the item. -/
theorem held_fixed_fullItems :
    ∃ inquiry ∈ Engine.inquiries {} itemLine "root" fullItems,
      inquiry.scope = (Scope.root "root" fullItems).bind "item" (fullItem 2) ∧
      inquiry.answer = .ok (.relation ⟨"item", ["xs"]⟩) ∧
      ¬(⟨"root", ["items"]⟩ : Route).names <+: (⟨"item", ["xs"]⟩ : Route).names := by
  have compiled : itemLine.Compiled :=
    ⟨_, _, _, (by decide +kernel : Template.ofLines? .standard ["{item.v}{x.v}"] = .ok itemLine)⟩
  have distinct : fullItems.NamesDistinct := by
    simp [fullItems, fullItem, numberedEntry, Object.NamesDistinct, Object.AttrsNamesDistinct,
      Object.ElementsNamesDistinct, Attr.NamesDistinct, Value.KeysDistinct, Fields.Distinct,
      Fields.keys]
  let outer := Scope.root "root" fullItems
  have asked : Engine.inquiries {} itemLine "root" fullItems =
      [⟨outer.bind "item" (fullItem 2), "x", .ok (.relation ⟨"item", ["xs"]⟩)⟩,
        ⟨outer.bind "item" (fullItem 1), "x", .ok (.relation ⟨"item", ["xs"]⟩)⟩,
        ⟨outer, "x", .ok (.relation ⟨"root", ["items", "xs"]⟩)⟩,
        ⟨outer, "item", .ok (.relation ⟨"root", ["items"]⟩)⟩] := by
    simp only [Engine.inquiries, Resolver.observing, Resolver.remembering_eq_insertionSort]
    with_unfolding_all rfl
  have holds : (outer.bind "item" (fullItem 2)).Holds
      (Engine.inquiries {} itemLine "root" fullItems) "item" ⟨"root", ["items"]⟩ := by
    have boundFor : BoundFor (Engine.inquiries {} itemLine "root" fullItems) outer "item"
        (fullItem 2) ⟨"root", ["items"]⟩ := by
      have walked : outer.elements ⟨"root", ["items"]⟩ = .ok [fullItem 1, fullItem 2] := rfl
      apply BoundFor.discovered _ walked (by simp)
      simp [asked]
    have live : (outer.bind "item" (fullItem 2)).bindings =
        [] ++ ⟨"item", fullItem 2⟩ :: outer.bindings := rfl
    exact .intro live boundFor (by decide) (by simp)
  have uniform : fullItems.Uniform "root" := by decide
  have inquired : (⟨outer.bind "item" (fullItem 2), "x", .ok (.relation ⟨"item", ["xs"]⟩)⟩ :
      Inquiry) ∈ Engine.inquiries {} itemLine "root" fullItems := by
    simp [asked]
  exact ⟨_, inquired, rfl, rfl,
    (Engine.held_fixed compiled distinct inquired rfl rfl holds).2 uniform⟩

/-- The second item has nothing but an empty element of `ks`. -/
def hollowItem : Object :=
  .mk [("xs", .relation []), ("ks", .relation [.empty])]

/-- The first of two items leads to elements of `subs`. -/
def hollowItems : Object :=
  .mk [("items", .relation [.mk [("xs", .relation [.mk [("subs", .relation [numberedEntry 1])]]),
      ("ks", .relation [])], hollowItem]), ("sub", .object (numberedEntry 9))]

/-- Loops over items and their `ks`, around a line for elements of `subs`. -/
def itemsAndKs : Template :=
  ⟨"{$items}\n{$ks}\n{sub.v}\n{ks$}\n{items$}",
    .loop ⟨"items", ⟨2, 7⟩⟩ "item" (.loop ⟨"ks", ⟨11, 13⟩⟩ "k"
      (.line ⟨[.placeholder ⟨⟨"sub", ⟨16, 19⟩⟩, [⟨"v", ⟨20, 21⟩⟩], ⟨15, 22⟩⟩], ⟨15, 22⟩⟩ .nil)
      .nil) .nil⟩

/-- Below the second item, which is held fixed, the elements below the first one are emitted. -/
theorem renderLines_enters_first_item :
    Template.ofLines? .standard ["{$items}", "{$ks}", "{sub.v}", "{ks$}", "{items$}"] =
        .ok itemsAndKs ∧
      Engine.renderLines {} itemsAndKs "root" hollowItems = .ok ["1"] ∧
      ∃ inquiry ∈ Engine.inquiries {} itemsAndKs "root" hollowItems,
        inquiry.scope.lookup? inquiry.name = none ∧
        inquiry.answer = .ok (.relation ⟨"root", ["items", "xs", "subs"]⟩) ∧
        inquiry.scope.Holds (Engine.inquiries {} itemsAndKs "root" hollowItems) "item"
          ⟨"root", ["items"]⟩ ∧
        (⟨"root", ["items"]⟩ : Route).names <+:
          (⟨"root", ["items", "xs", "subs"]⟩ : Route).names := by
  let outer := Scope.root "root" hollowItems
  let scope := (outer.bind "item" hollowItem).bind "k" .empty
  have asked : Engine.inquiries {} itemsAndKs "root" hollowItems =
      [⟨scope, "sub", .ok (.relation ⟨"root", ["items", "xs", "subs"]⟩)⟩] := by
    simp only [Engine.inquiries, Resolver.observing, Resolver.remembering_eq_insertionSort]
    with_unfolding_all rfl
  refine ⟨by decide +kernel, by decide +kernel, ⟨scope, "sub", _⟩, ?_, rfl, rfl, ?_, ⟨["xs", "subs"], rfl⟩⟩
  · simp [asked]
  · have first : outer.bindings.find? (fun binding =>
        (binding.object.relation? (plural "item")).isSome) = some ⟨"root", hollowItems⟩ := rfl
    have live : scope.bindings = [⟨"k", .empty⟩] ++ ⟨"item", hollowItem⟩ :: outer.bindings := rfl
    exact .intro live (.exposed first rfl (by simp)) (by decide) (by simp)

end GraphTemplate
