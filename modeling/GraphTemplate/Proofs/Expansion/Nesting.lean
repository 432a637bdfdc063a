import GraphTemplate.Engine
import GraphTemplate.Proofs.Expansion.Iteration
import Mathlib.Data.List.Chain

/-!
# Nested iteration on one line

A line that speaks of the elements of several relations, each below the one before, is repeated for
the rows of their join: for each element of the first relation, each element below it of the second,
and so on.  The routes are those that are found from the root; what is rediscovered from the elements
bound on the way are the legs between them.
-/

namespace GraphTemplate

/-- The legs from the end of each route to the end of the next, behind the names already passed. -/
def legsBetween : Nat → List (String × Route) → Legs
  | _, [] => []
  | passed, (name, route) :: rest =>
      (name, route.names.drop passed) :: legsBetween route.names.length rest

/-- The rows of elements along legs, depth first: one element at the end of the first leg, one at the
end of the next from there, and so on. -/
def Object.join : List (List String) → Object → Option (List (List Object))
  | [], _ => some [[]]
  | steps :: rest, o => do
      let elements ← o.elementsAlong? steps
      elements.flatMapM fun element => do
        let rows ← element.join rest
        return rows.map (element :: ·)

theorem names_legsBetween (passed : Nat) (chains : List (String × Route)) :
    (legsBetween passed chains).names = chains.map Prod.fst := by
  induction chains generalizing passed with
  | nil => rfl
  | cons chain rest ih =>
      have others := ih chain.2.names.length
      simp only [Legs.names] at others ⊢
      simp [legsBetween, others]

section

variable {owner : String} {passed : List String} {chains : List (String × Route)}

theorem exists_steps_of_isBelow {route : Route} (below : route.isBelow ⟨owner, passed⟩) :
    ∃ steps, steps ≠ [] ∧ route = ⟨owner, passed ++ steps⟩ := by
  rcases route with ⟨start, steps⟩
  simp only [Route.isBelow, Route.names, Bool.and_eq_true, List.isPrefixOf_iff_prefix,
    List.length_cons] at below
  rcases below with ⟨⟨others, whole⟩, longer⟩
  simp only [List.cons_append, List.cons.injEq] at whole
  rcases whole with ⟨rfl, rfl⟩
  refine ⟨others, ?_, rfl⟩
  rintro rfl
  simp at longer

theorem legsBetween_cons (name : String) (steps : List String) (rest : List (String × Route)) :
    legsBetween (passed.length + 1) ((name, ⟨owner, passed ++ steps⟩) :: rest) =
      (name, steps) :: legsBetween ((passed ++ steps).length + 1) rest := by
  simp [legsBetween, Route.names]

theorem longer_legsBetween
    (nested : (⟨owner, passed⟩ :: chains.map Prod.snd).IsChain fun outer inner =>
      inner.isBelow outer) :
    ∀ leg ∈ legsBetween (passed.length + 1) chains, leg.2 ≠ [] := by
  induction chains generalizing passed with
  | nil => simp [legsBetween]
  | cons chain rest ih =>
      rcases chain with ⟨name, route⟩
      rw [List.map_cons, List.isChain_cons_cons] at nested
      rcases exists_steps_of_isBelow nested.1 with ⟨steps, more, rfl⟩
      rw [legsBetween_cons, List.forall_mem_cons]
      exact ⟨more, ih nested.2⟩

theorem routeAlong_legsBetween {name : String} {route : Route}
    (nested : (⟨owner, passed⟩ :: chains.map Prod.snd).IsChain fun outer inner =>
      inner.isBelow outer)
    (nodup : (chains.map Prod.fst).Nodup) (member : (name, route) ∈ chains) :
    routeAlong owner passed (legsBetween (passed.length + 1) chains) name = route := by
  induction chains generalizing passed with
  | nil => cases member
  | cons chain rest ih =>
      rcases chain with ⟨first, firstRoute⟩
      rw [List.map_cons, List.isChain_cons_cons] at nested
      rw [List.map_cons, List.nodup_cons] at nodup
      rcases exists_steps_of_isBelow nested.1 with ⟨steps, more, rfl⟩
      rw [legsBetween_cons, routeAlong]
      rcases List.mem_cons.mp member with same | later
      · cases same
        exact if_pos rfl
      · have different : first ≠ name := by
          rintro rfl
          exact nodup.1 (List.mem_map.mpr ⟨_, later, rfl⟩)
        rw [if_neg different]
        exact ih nested.2 nodup.2 later

theorem flatten_legsBetween
    (nested : (⟨owner, passed⟩ :: chains.map Prod.snd).IsChain fun outer inner =>
      inner.isBelow outer) :
    ⟨owner, passed ++ ((legsBetween (passed.length + 1) chains).map Prod.snd).flatten⟩ =
      (chains.map Prod.snd).getLastD ⟨owner, passed⟩ := by
  induction chains generalizing passed with
  | nil => simp [legsBetween]
  | cons chain rest ih =>
      rcases chain with ⟨first, firstRoute⟩
      rw [List.map_cons, List.isChain_cons_cons] at nested
      rcases exists_steps_of_isBelow nested.1 with ⟨steps, more, rfl⟩
      rw [List.map_cons, List.getLastD_cons, ← ih nested.2, legsBetween_cons, List.map_cons,
        List.flatten_cons, List.append_assoc]

end

theorem nodup_names_of_nested {chains : List (String × Route)}
    (nested : (chains.map Prod.snd).IsChain fun outer inner => inner.isBelow outer)
    (functional : ∀ chain ∈ chains, ∀ other ∈ chains, chain.1 = other.1 → chain.2 = other.2) :
    (chains.map Prod.fst).Nodup := by
  have growing : (chains.map fun chain => chain.2.names.length).IsChain (· < ·) := by
    rw [List.isChain_map] at nested ⊢
    apply nested.imp
    intro outer inner below
    simp only [Route.isBelow, Bool.and_eq_true, decide_eq_true_eq] at below
    exact below.2
  rw [List.isChain_iff_pairwise, List.pairwise_map] at growing
  rw [List.Nodup, List.pairwise_map]
  apply growing.imp_of_mem
  intro chain other member otherMem shorter same
  rw [functional chain member other otherMem same] at shorter
  exact Nat.lt_irrefl _ shorter

theorem flatMapM_bind_mapM {α β γ : Type} (items : List α) (f : α → Option (List β))
    (g : β → Option γ) :
    ((items.flatMapM f).bind fun found => found.mapM g) =
      items.flatMapM fun item => (f item).bind fun found => found.mapM g := by
  induction items with
  | nil => rfl
  | cons item rest ih =>
      rw [List.flatMapM_cons, List.flatMapM_cons, ← ih]
      cases f item with
      | none => rfl
      | some found =>
          cases rest.flatMapM f with
          | none => cases reached : found.mapM g <;> simp [reached]
          | some others => simp [List.mapM_append]

theorem map_flatMapM {α β γ : Type} (items : List α) (f : α → Option (List β)) (g : β → γ) :
    (items.flatMapM f).map (List.map g) = items.flatMapM fun item => (f item).map (List.map g) := by
  induction items with
  | nil => rfl
  | cons item rest ih =>
      rw [List.flatMapM_cons, List.flatMapM_cons, ← ih]
      cases f item with
      | none => rfl
      | some found => cases rest.flatMapM f <;> simp

theorem Object.join_cons (steps : List String) (rest : List (List String)) (o : Object) :
    o.join (steps :: rest) = (o.elementsAlong? steps).bind fun elements =>
      elements.flatMapM fun element =>
        (element.join rest).map fun rows => rows.map (element :: ·) := by
  have each : (fun element : Object => (element.join rest).map fun rows => rows.map (element :: ·)) =
      fun element => (do
        let rows ← element.join rest
        return rows.map (element :: ·)) := by
    funext element
    cases element.join rest <;> rfl
  rw [each]
  rfl

theorem Fields.get?_zip_eq_none {α : Type} {names : List String} {values : List α} {name : String}
    (absent : name ∉ names) : Fields.get? (names.zip values) name = none := by
  rw [Option.eq_none_iff_forall_not_mem]
  intro value found
  exact absent (List.of_mem_zip (Fields.mem_of_get?_eq_some found)).1

/-- Repeating a line along legs substitutes the rows of the join. -/
theorem Line.textsAlong_eq_join {line : Line} {legs : Legs} {scope : Scope}
    (nodup : legs.names.Nodup) :
    line.textsAlong legs scope =
      (scope.innermost.object.join (legs.map Prod.snd)).bind fun rows =>
        rows.mapM fun row => line.textIn fun name =>
          (Fields.get? (legs.names.zip row) name).or (scope.lookup? name) := by
  induction legs generalizing scope with
  | nil =>
      simp only [textsAlong, List.map_nil, Object.join, Legs.names, List.zip_nil_left,
        Fields.get?_nil, Option.none_or, Option.bind_some, List.mapM_cons, List.mapM_nil]
      cases line.textIn fun name => scope.lookup? name <;> rfl
  | cons leg rest ih =>
      rcases leg with ⟨name, steps⟩
      simp only [Legs.names, List.map_cons, List.nodup_cons] at nodup ih ⊢
      rw [textsAlong, Object.join_cons, Option.bind_assoc]
      refine congrArg (Option.bind (scope.innermost.object.elementsAlong? steps)) ?_
      funext elements
      rw [flatMapM_bind_mapM]
      refine congrArg elements.flatMapM ?_
      funext element
      rw [ih nodup.2, Scope.innermost_bind, Option.bind_map]
      refine congrArg (Option.bind (element.join (rest.map Prod.snd))) ?_
      funext rows
      rw [Function.comp_apply, List.mapM_map]
      refine congrArg rows.mapM ?_
      funext row
      refine congrArg line.textIn ?_
      funext other
      rw [List.zip_cons_cons, Fields.get?_cons, Scope.lookup?_bind]
      split
      · rename_i same
        rw [Fields.get?_zip_eq_none (same ▸ nodup.1)]
        rfl
      · rfl

/-- The rows of the join end in the elements at the end of all legs in a row. -/
theorem Object.map_getLastD_join (legs : List (List String)) (o : Object) :
    (o.join legs).map (List.map fun row => row.getLastD o) = o.elementsAlong? legs.flatten := by
  induction legs generalizing o with
  | nil => simp [join]
  | cons steps rest ih =>
      rw [join_cons, List.flatten_cons, elementsAlong?_append, Option.map_bind]
      refine congrArg (Option.bind (o.elementsAlong? steps)) ?_
      funext elements
      rw [Function.comp_apply, map_flatMapM, ← funext ih]
      refine congrArg elements.flatMapM ?_
      funext element
      rw [Option.map_map]
      refine congrArg (Option.map · (element.join rest)) ?_
      funext rows
      rw [Function.comp_apply, List.map_map]
      apply List.map_congr_left
      intro row _
      exact List.getLastD_cons (a := o)

theorem exists_reached {name other : String} {steps : List String} {rest : Legs} {scope : Scope}
    (distinct : scope.innermost.object.NamesDistinct) (longer : ∀ leg ∈ rest, leg.2 ≠ [])
    (fresh : name ∉ rest.names) (member : other ∈ rest.names)
    (only : LeadsOnly (plural other) [(scope.innermost.name, scope.innermost.object)]
      (scope.routeAlong ((name, steps) :: rest) other)) :
    ∃ reached, Object.FirstAlong steps scope.innermost.object reached ∧ reached.NamesDistinct ∧
      LeadsOnly (plural other) [(name, reached)] (routeAlong name [] rest other) := by
  have different : name ≠ other := by
    rintro rfl
    exact fresh member
  rw [Scope.routeAlong, routeAlong_cons_of_ne rest different] at only
  have more := length_lt_routeAlong name [] longer member
  rcases only.along distinct (List.ne_nil_of_length_pos more) with
    ⟨reached, first, reachedDistinct, onlyReached⟩
  refine ⟨reached, first, reachedDistinct, ?_⟩
  have route := routeAlong_append name name [] [] rest other
  rw [List.append_nil, List.nil_append] at route
  rw [route]
  exact onlyReached.rename name

/-- Where the routes of the legs are found from the innermost binding alone and nothing is remembered,
the legs are ready. -/
theorem ready_of_leadsOnly {legs : Legs} {scope : Scope}
    (distinct : scope.innermost.object.NamesDistinct) (longer : ∀ leg ∈ legs, leg.2 ≠ [])
    (nodup : legs.names.Nodup)
    (only : ∀ name ∈ legs.names, LeadsOnly (plural name)
      [(scope.innermost.name, scope.innermost.object)] (scope.routeAlong legs name)) :
    Ready legs scope [] := by
  induction legs generalizing scope with
  | nil => trivial
  | cons leg rest ih =>
      rcases leg with ⟨name, steps⟩
      have settles : Settles ((name, steps) :: rest) scope [] := by
        intro other member
        right
        refine ⟨rfl, Scope.discover_of_innermost ?_⟩
        rw [findRelation?_eq_searchLevel]
        exact searchLevel_eq_some_iff.mpr (only other member)
      refine ready_cons.mpr ⟨settles, ?_⟩
      simp only [Legs.names, List.map_cons, List.nodup_cons] at nodup
      rw [List.forall_mem_cons] at longer
      have ahead := fun other (member : other ∈ Legs.names rest) =>
        exists_reached distinct longer.2 nodup.1 member (only other (List.mem_cons_of_mem _ member))
      intro elements along
      rcases rest with _ | ⟨next, more⟩
      · rcases elements with _ | ⟨first, others⟩
        · exact fun _ => trivial
        · trivial
      · rcases ahead next.1 List.mem_cons_self with ⟨reached, first, reachedDistinct, _⟩
        rcases List.head?_eq_some_iff.mp (first.head?_elements along) with ⟨others, rfl⟩
        apply ih reachedDistinct longer.2 nodup.2
        intro other member
        rcases ahead other member with ⟨also, otherFirst, _, onlyAlso⟩
        -- First elements lead to one object only, so all later routes go on from the same one.
        have same : also = reached := by
          have heads := otherFirst.head?_elements along
          rw [first.head?_elements along] at heads
          exact (Option.some.inj heads).symm
        rw [same] at onlyAlso
        exact onlyAlso

theorem LeadsOnly.isBelow_owner {relation owner : String} {object : Object} {route : Route}
    (only : LeadsOnly relation [(owner, object)] route) : route.isBelow ⟨owner, []⟩ := by
  have start := only.owner_eq
  rcases only with ⟨positions, leads, _⟩
  have more := List.length_pos_iff.mpr leads.steps_ne_nil
  simp only [Route.isBelow, Route.names, start, List.length_cons, List.length_nil]
  simpa using more

theorem Template.toOption_expandLines {template : Template} {separator name : String} {root : Object}
    {lines : List Line} {outcome : Option (List String)} {before after : Memory → Prop}
    (body : template.body.expand Resolver.remembering separator (Scope.root name root) =
      Line.expandRun Resolver.remembering separator (Scope.root name root) lines)
    (yields : Yields before
      (Line.expandRun Resolver.remembering separator (Scope.root name root) lines) outcome after)
    (start : before []) : (template.expandLines separator name root).toOption = outcome := by
  simp only [expandLines, body, toOption_mapError]
  exact (yields [] start).1

section

variable {line : Line} {root : Object} {name : String} {chains : List (String × Route)}

theorem leadsOnly_of_found
    (found : ∀ chain ∈ chains, findRelation? [(name, root)] chain.1 = .ok (some chain.2)) :
    ∀ chain ∈ chains, LeadsOnly (plural chain.1) [(name, root)] chain.2 :=
  fun chain member => searchLevel_eq_some_iff.mp (found chain member)

theorem nodup_names_of_found
    (found : ∀ chain ∈ chains, findRelation? [(name, root)] chain.1 = .ok (some chain.2))
    (nested : (chains.map Prod.snd).IsChain fun outer inner => inner.isBelow outer) :
    (chains.map Prod.fst).Nodup := by
  apply nodup_names_of_nested nested
  intro chain member other otherMem same
  have both := found chain member
  rw [same, found other otherMem] at both
  exact (Option.some.inj (Except.ok.inj both)).symm

theorem isChain_from_root
    (only : ∀ chain ∈ chains, LeadsOnly (plural chain.1) [(name, root)] chain.2)
    (nested : (chains.map Prod.snd).IsChain fun outer inner => inner.isBelow outer) :
    (⟨name, []⟩ :: chains.map Prod.snd).IsChain fun outer inner => inner.isBelow outer := by
  rcases chains with _ | ⟨first, rest⟩
  · exact List.isChain_singleton _
  · exact List.isChain_cons_cons.mpr ⟨(only first List.mem_cons_self).isBelow_owner, nested⟩

theorem Line.fits_legsBetween
    (roots : ∀ other, other ∈ line.roots ∧ other ≠ name ↔ other ∈ chains.map Prod.fst)
    (nodup : (chains.map Prod.fst).Nodup)
    (started : (⟨name, []⟩ :: chains.map Prod.snd).IsChain fun outer inner =>
      inner.isBelow outer) : line.Fits (legsBetween 1 chains) (Scope.root name root) := by
  have names := names_legsBetween 1 chains
  constructor
  · intro other member unbound
    rw [Scope.lookup?_root] at unbound
    rw [names]
    apply (roots other).mp ⟨member, _⟩
    rintro rfl
    simp at unbound
  · intro other member
    exact ((roots other).mpr (names ▸ member)).1
  · intro other member
    rw [Scope.lookup?_root, if_neg (Ne.symm ((roots other).mpr (names ▸ member)).2)]
  · exact names ▸ nodup
  · exact longer_legsBetween started

theorem ready_legsBetween (distinct : root.NamesDistinct)
    (only : ∀ chain ∈ chains, LeadsOnly (plural chain.1) [(name, root)] chain.2)
    (nodup : (chains.map Prod.fst).Nodup)
    (started : (⟨name, []⟩ :: chains.map Prod.snd).IsChain fun outer inner =>
      inner.isBelow outer) : Ready (legsBetween 1 chains) (Scope.root name root) [] := by
  have names := names_legsBetween 1 chains
  have longer : ∀ leg ∈ legsBetween 1 chains, leg.2 ≠ [] := longer_legsBetween started
  apply ready_of_leadsOnly distinct longer (names ▸ nodup)
  intro other member
  rw [names] at member
  rcases List.mem_map.mp member with ⟨⟨_, route⟩, chainMem, rfl⟩
  rw [Scope.routeAlong, Scope.innermost_root]
  have along := routeAlong_legsBetween started nodup chainMem
  rw [List.length_nil, Nat.zero_add] at along
  rw [along]
  exact only _ chainMem

theorem Scope.lookup?_root_of_zip {names : List String} (absent : name ∉ names)
    (row : List Object) :
    (fun other => (Fields.get? (names.zip row) other).or ((Scope.root name root).lookup? other)) =
      Fields.get? ((name, root) :: names.zip row) := by
  funext other
  rw [Scope.lookup?_root, Fields.get?_cons]
  split
  · rename_i same
    rw [Fields.get?_zip_eq_none (same ▸ absent), Option.none_or]
  · rw [Option.or_none]

end

/-- A template that is one line with placeholders emits one text for each row of the join of the
walks between the routes of its names, in the order of the rows, and nothing between them; it fails
if a walk or a substitution fails.  The rows are as many as the elements at the end of the last route
and end in these. -/
theorem renderLines_line_eq_join {engine : Engine} {template : Template} {line : Line}
    {root : Object} {name : String} {chains : List (String × Route)} {deepest : String × Route}
    (body : template.body = .line line .nil) (distinct : root.NamesDistinct)
    (roots : ∀ other, other ∈ line.roots ∧ other ≠ name ↔ other ∈ chains.map Prod.fst)
    (found : ∀ chain ∈ chains, findRelation? [(name, root)] chain.1 = .ok (some chain.2))
    (nested : (chains.map Prod.snd).IsChain fun outer inner => inner.isBelow outer)
    (last : chains.getLast? = some deepest) :
    (∀ texts, engine.renderLines template name root = .ok texts ↔
      ∃ rows, root.join ((legsBetween 1 chains).map Prod.snd) = some rows ∧
        (rows.mapM fun row => line.textIn
          (Fields.get? ((name, root) :: (chains.map Prod.fst).zip row))) = some texts) ∧
    (root.join ((legsBetween 1 chains).map Prod.snd)).map (List.map fun row => row.getLastD root) =
      root.elementsAlong? deepest.2.steps := by
  have only := leadsOnly_of_found found
  have nodup := nodup_names_of_found found nested
  have started := isChain_from_root only nested
  have fits : line.Fits (legsBetween 1 chains) (Scope.root name root) :=
    Line.fits_legsBetween roots nodup started
  have ready := ready_legsBetween distinct only nodup started
  have yields : Yields
      (fun memory => Ready (legsBetween 1 chains) (Scope.root name root) memory ∧ True)
      (Line.expandRun Resolver.remembering engine.separator (Scope.root name root) [line])
      (line.textsAlong (legsBetween 1 chains) (Scope.root name root))
      (fun memory => Knows (legsBetween 1 chains) (Scope.root name root) memory ∧ True) :=
    Yields.expandRun_line fits fun _ _ _ _ holds => holds
  have outcome : (engine.renderLines template name root).toOption =
      line.textsAlong (legsBetween 1 chains) (Scope.root name root) := by
    apply Template.toOption_expandLines _ yields ⟨ready, trivial⟩
    rw [body]
    rfl
  constructor
  · intro texts
    have absent : name ∉ chains.map Prod.fst := fun member => ((roots name).mpr member).2 rfl
    rw [eq_ok_iff_toOption, outcome, Line.textsAlong_eq_join fits.nodup, Option.bind_eq_some_iff]
    simp only [names_legsBetween, Scope.lookup?_root_of_zip absent, Scope.innermost_root]
  · rw [Object.map_getLastD_join]
    have whole := flatten_legsBetween started
    rw [List.getLastD_eq_getLast?, List.getLast?_map, last] at whole
    have steps := congrArg Route.steps whole
    simpa using congrArg (fun steps => root.elementsAlong? steps) steps

/-- A root with three items, of which the second has no tags. -/
def taggedItems : Object :=
  let tag (label : String) : Object := .mk [("label", .value (.string label))]
  let item (name : String) (tags : List Object) : Object :=
    .mk [("name", .value (.string name)), ("tags", .relation tags)]
  .mk [("items", .relation [item "a" [tag "x", tag "y"], item "b" [], item "c" [tag "z"]])]

theorem namesDistinct_taggedItems : taggedItems.NamesDistinct := by
  simp [taggedItems, Object.NamesDistinct, Object.AttrsNamesDistinct, Object.ElementsNamesDistinct,
    Attr.NamesDistinct, Value.KeysDistinct, Fields.Distinct, Fields.keys]

def itemName : Part :=
  .placeholder ⟨⟨"item", ⟨1, 5⟩⟩, [⟨"name", ⟨6, 10⟩⟩], ⟨0, 11⟩⟩

def tagLabel (start : Nat) : Part :=
  .placeholder ⟨⟨"tag", ⟨start + 1, start + 4⟩⟩, [⟨"label", ⟨start + 5, start + 10⟩⟩],
    ⟨start, start + 11⟩⟩

theorem renderLines_item_with_tags :
    Engine.renderLines {} ⟨"{item.name}{tag.label}",
      .line ⟨[itemName, tagLabel 11], ⟨0, 22⟩⟩ .nil⟩ "root" taggedItems = .ok ["ax", "ay", "cz"] := by
  have found : ∀ chain ∈ [("item", (⟨"root", ["items"]⟩ : Route)), ("tag", ⟨"root", ["items", "tags"]⟩)],
      findRelation? [("root", taggedItems)] chain.1 = .ok (some chain.2) := by decide
  have names : Line.roots ⟨[itemName, tagLabel 11], ⟨0, 22⟩⟩ = ["item", "tag"] := rfl
  have roots : ∀ other, other ∈ Line.roots ⟨[itemName, tagLabel 11], ⟨0, 22⟩⟩ ∧ other ≠ "root" ↔
      other ∈ ["item", "tag"] := by
    intro other
    rw [names, and_iff_left_iff_imp]
    rintro member rfl
    simp at member
  have whole := @renderLines_line_eq_join {} ⟨"{item.name}{tag.label}", _⟩ _ _ _ _ _ rfl
    namesDistinct_taggedItems roots found (by decide) rfl
  refine (whole.1 _).mpr (Option.bind_eq_some_iff.mp ?_)
  simp only [legsBetween, List.map_cons, List.map_nil, Object.join,
    Object.elementsAlong?_eq_mapM_reach]
  rfl

end GraphTemplate
