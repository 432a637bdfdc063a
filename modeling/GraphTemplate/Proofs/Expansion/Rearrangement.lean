import GraphTemplate.Engine
import GraphTemplate.Proofs.Discovery
import GraphTemplate.Proofs.Expansion.Lockstep

/-!
# Expansion of rearranged graphs

The order in which objects declare their attributes is part of the data, but it has no influence on
what a template makes of them.  Searches go through candidates and samples in that order; whatever
they find is the only thing there is to find, so that another order leads to the same.  Only the order
of the names in a fault may differ.
-/

namespace GraphTemplate

mutual

/-- The attributes are the same, except that objects below may declare theirs in another order. -/
inductive Attr.Rearranged : Attr → Attr → Prop where
  | value (content : Value) : Attr.Rearranged (.value content) (.value content)
  | object {o other : Object} (inner : o.Rearranged other) :
      Attr.Rearranged (.object o) (.object other)
  | relation {elements others : List Object} (each : Object.ElementsRearranged elements others) :
      Attr.Rearranged (.relation elements) (.relation others)

/-- The objects declare the same attributes in any order, and so do all objects below. -/
inductive Object.Rearranged : Object → Object → Prop where
  | mk {attrs moved others : List (String × Attr)} (perm : attrs.Perm moved)
      (each : Object.AttrsRearranged moved others) : Object.Rearranged (.mk attrs) (.mk others)

/-- The elements correspond to each other in their order. -/
inductive Object.ElementsRearranged : List Object → List Object → Prop where
  | nil : Object.ElementsRearranged [] []
  | cons {element other : Object} {rest otherRest : List Object}
      (first : element.Rearranged other) (later : Object.ElementsRearranged rest otherRest) :
      Object.ElementsRearranged (element :: rest) (other :: otherRest)

inductive Object.AttrsRearranged : List (String × Attr) → List (String × Attr) → Prop where
  | nil : Object.AttrsRearranged [] []
  | cons (name : String) {attr other : Attr} {rest otherRest : List (String × Attr)}
      (first : attr.Rearranged other) (later : Object.AttrsRearranged rest otherRest) :
      Object.AttrsRearranged ((name, attr) :: rest) ((name, other) :: otherRest)

end

theorem Fields.get?_eq_of_perm {α : Type} {fields others : Fields α} (distinct : fields.Distinct)
    (perm : fields.Perm others) (key : String) : fields.get? key = others.get? key := by
  have otherDistinct : others.Distinct := (perm.map Prod.fst).nodup distinct
  rcases found : others.get? key with _ | value
  · by_contra some
    rcases Option.ne_none_iff_exists'.mp some with ⟨value, given⟩
    have member := perm.mem_iff.mp (Fields.mem_of_get?_eq_some given)
    rw [Fields.get?_eq_some_of_mem otherDistinct member] at found
    cases found
  · have member := perm.mem_iff.mpr (Fields.mem_of_get?_eq_some found)
    exact Fields.get?_eq_some_of_mem distinct member

namespace Object

theorem AttrsRearranged.keys_eq {attrs others : List (String × Attr)} :
    AttrsRearranged attrs others → Fields.keys attrs = Fields.keys others
  | .nil => rfl
  | .cons name _ later => by rw [Fields.keys_cons, Fields.keys_cons, later.keys_eq]

theorem AttrsRearranged.get? {attrs others : List (String × Attr)} (key : String) :
    AttrsRearranged attrs others →
      Option.Rel Attr.Rearranged (Fields.get? attrs key) (Fields.get? others key)
  | .nil => .none
  | .cons name first later => by
      rw [Fields.get?_cons, Fields.get?_cons]
      split
      · exact .some first
      · exact later.get? key

theorem attrsNamesDistinct_of_perm {attrs moved : List (String × Attr)} (perm : attrs.Perm moved)
    (distinct : AttrsNamesDistinct attrs) : AttrsNamesDistinct moved := by
  induction perm with
  | nil => exact distinct
  | cons entry _ ih => exact ⟨distinct.1, ih distinct.2⟩
  | swap entry other rest => exact ⟨distinct.2.1, distinct.1, distinct.2.2⟩
  | trans _ _ ih later => exact later (ih distinct)

theorem ElementsRearranged.forall₂ {elements others : List Object} :
    ElementsRearranged elements others → List.Forall₂ Rearranged elements others
  | .nil => .nil
  | .cons first later => .cons first later.forall₂

end Object

mutual

theorem Attr.Rearranged.namesDistinct {attr other : Attr} :
    attr.Rearranged other → attr.NamesDistinct → other.NamesDistinct
  | .value _, distinct => distinct
  | .object inner, distinct => inner.namesDistinct distinct
  | .relation each, distinct => each.namesDistinct distinct

/-- Moving attributes repeats no names. -/
theorem Object.Rearranged.namesDistinct {o other : Object} :
    o.Rearranged other → o.NamesDistinct → other.NamesDistinct
  | .mk perm each, distinct => by
      constructor
      · have moved := (perm.map Prod.fst).nodup distinct.1
        unfold Fields.Distinct
        rw [← each.keys_eq]
        exact moved
      · exact each.namesDistinct (Object.attrsNamesDistinct_of_perm perm distinct.2)

theorem Object.ElementsRearranged.namesDistinct {elements others : List Object} :
    Object.ElementsRearranged elements others → Object.ElementsNamesDistinct elements →
      Object.ElementsNamesDistinct others
  | .nil, _ => trivial
  | .cons first later, distinct => ⟨first.namesDistinct distinct.1, later.namesDistinct distinct.2⟩

theorem Object.AttrsRearranged.namesDistinct {attrs others : List (String × Attr)} :
    Object.AttrsRearranged attrs others → Object.AttrsNamesDistinct attrs →
      Object.AttrsNamesDistinct others
  | .nil, _ => trivial
  | .cons _ first later, distinct => ⟨first.namesDistinct distinct.1, later.namesDistinct distinct.2⟩

end

namespace Object

/-- Rearranged objects in which no name is declared twice. -/
def DistinctRearranged (o other : Object) : Prop :=
  o.Rearranged other ∧ o.NamesDistinct

theorem DistinctRearranged.likeness : DistinctLikeness DistinctRearranged where
  alike o other same name := by
    rcases same with ⟨⟨perm, each⟩, distinct⟩
    rename_i attrs moved others
    have alike := each.get? name
    simp only [attr?, Object.attrs]
    rw [← Fields.get?_eq_of_perm distinct.1 perm] at alike
    generalize found : Fields.get? attrs name = attr, Fields.get? others name = otherAttr at alike
    rcases alike with attrSame | _
    · have held := attrsNamesDistinct_of_mem distinct.2 (Fields.mem_of_get?_eq_some found)
      rcases attrSame with content | inner | each
      · exact .some (.value content)
      · exact .some (.object ⟨inner, held⟩)
      · refine .some (.relation ?_)
        have members := (List.forall₂_and_left _ _).mpr ⟨fun _ member => member, each.forall₂⟩
        exact members.imp fun element _ both => ⟨both.2, elementsNamesDistinct_of_mem held both.1⟩
    · exact .none
  distinct _ _ same := ⟨same.2, same.1.namesDistinct same.2⟩

end Object

namespace Fields

variable {α β : Type} {values : α → β → Prop}

/-- The entries have the same keys and related values. -/
def Corresponds (values : α → β → Prop) (fields : Fields α) (others : Fields β) : Prop :=
  List.Forall₂ (fun entry other => entry.1 = other.1 ∧ values entry.2 other.2) fields others

theorem Corresponds.insert {fields : Fields α} {others : Fields β} {value : α} {other : β}
    (each : Corresponds values fields others) (key : String) (same : values value other) :
    Corresponds values (fields.insert key value) (others.insert key other) := by
  induction each with
  | nil => exact .cons ⟨rfl, same⟩ .nil
  | @cons entry otherEntry rest otherRest first later ih =>
      rcases entry with ⟨name, old⟩
      rcases otherEntry with ⟨otherName, otherOld⟩
      cases first.1
      simp only [Fields.insert]
      split
      · exact .cons ⟨rfl, same⟩ later
      · exact .cons first ih

theorem Corresponds.ofList {entries : List (String × α)} {others : List (String × β)}
    (each : Corresponds values entries others) :
    Corresponds values (Fields.ofList entries) (Fields.ofList others) := by
  refine List.rel_foldl ?_ .nil each
  rintro fields otherFields fieldsSame ⟨key, value⟩ ⟨_, other⟩ ⟨rfl, same⟩
  exact fieldsSame.insert key same

theorem Corresponds.flip {fields : Fields α} {others : Fields β}
    (each : Corresponds values fields others) : Corresponds (flip values) others fields :=
  (List.Forall₂.flip each).imp fun _ _ both => ⟨both.1.symm, both.2⟩

theorem Corresponds.exists_mem {fields : Fields α} {others : Fields β} {key : String} {value : α}
    (each : Corresponds values fields others) (member : (key, value) ∈ fields) :
    ∃ other, (key, other) ∈ others ∧ values value other := by
  induction each with
  | nil => cases member
  | @cons entry otherEntry _ _ first _ ih =>
      rcases List.mem_cons.mp member with rfl | later
      · rcases otherEntry with ⟨otherKey, other⟩
        rcases first with ⟨rfl, same⟩
        exact ⟨other, List.mem_cons_self, same⟩
      · rcases ih later with ⟨other, otherMem, same⟩
        exact ⟨other, List.mem_cons_of_mem _ otherMem, same⟩

end Fields

theorem Counterparts.of_corresponds {objects : Object → Object → Prop} {candidates others : Fields Object}
    (distinct : candidates.Distinct) (otherDistinct : others.Distinct)
    (each : Fields.Corresponds objects candidates others) :
    Counterparts objects candidates others :=
  ⟨distinct, otherDistinct, fun _ _ => each.exists_mem, fun _ _ => each.flip.exists_mem⟩

namespace Scope

/-- The same names are bound in the same order, to related objects. -/
def Corresponds (objects : Object → Object → Prop) (scope other : Scope) : Prop :=
  List.Forall₂ (fun binding other => binding.name = other.name ∧ objects binding.object other.object)
    scope.bindings other.bindings

namespace Corresponds

variable {objects : Object → Object → Prop} {scope other : Scope}

theorem sameNames (corresponds : scope.Corresponds objects other) : scope.SameNames other := by
  unfold SameNames
  rw [← List.forall₂_eq_eq_eq, List.forall₂_map_left_iff, List.forall₂_map_right_iff]
  exact corresponds.imp fun _ _ both => both.1

theorem candidates (corresponds : scope.Corresponds objects other) :
    Fields.Corresponds objects scope.candidates other.candidates := by
  apply Fields.Corresponds.ofList
  apply List.rel_map _ (List.rel_reverse corresponds)
  exact fun _ _ both => both

/-- What is discovered for a name in a scope is discovered in one that corresponds to it. -/
theorem discover (likeness : Object.DistinctLikeness objects)
    (corresponds : scope.Corresponds objects other) (name : String) :
    Tallies Fault.SameCategory Eq (scope.discover name) (other.discover name) := by
  have each := corresponds.candidates
  have counterparts := Counterparts.of_corresponds (Fields.distinct_ofList _)
    (Fields.distinct_ofList _) each
  have nearest : Tallies Fault.SameCategory Eq
      (findRelation? [(scope.innermost.name, scope.innermost.object)] name)
      (findRelation? [(other.innermost.name, other.innermost.object)] name) := by
    rcases corresponds with _ | ⟨innermost, _⟩
    refine (Counterparts.of_corresponds ?_ ?_ (.cons innermost .nil)).findRelation? likeness name
    · exact List.nodup_singleton _
    · exact List.nodup_singleton _
  have relationRoute : Tallies Fault.SameCategory Eq (scope.relationRoute? name)
      (other.relationRoute? name) := by
    rw [relationRoute?_eq, relationRoute?_eq]
    apply nearest.bind
    rintro (_ | route) _ rfl
    · exact counterparts.findRelation? likeness name
    · exact .ok rfl
  unfold Scope.discover
  apply relationRoute.bind
  rintro (_ | route) _ rfl
  · rw [findAttribute?_eq_of_alike likeness.alike each]
    rcases findAttribute? other.candidates name with fault | (_ | route)
    · exact .error rfl
    · exact .error rfl
    · exact .ok rfl
  · exact .ok rfl

end Corresponds

theorem corresponds_root {objects : Object → Object → Prop} {root otherRoot : Object} (name : String)
    (same : objects root otherRoot) :
    (Scope.root name root).Corresponds objects (Scope.root name otherRoot) :=
  .cons ⟨rfl, same⟩ .nil

end Scope

/-- Rearranged graphs are expanded with one memory, which holds answers to the same questions. -/
def Lockstep.rearranged : Lockstep Memory Memory where
  left := Resolver.remembering
  right := Resolver.remembering
  states := Eq
  faults := Fault.SameCategory
  spans := Eq
  objects := Object.DistinctRearranged
  scopes := Scope.Corresponds Object.DistinctRearranged
  answered _ _ _ := True
  faults_refl _ := rfl
  category_eq _ _ same := same
  likeness := Object.DistinctRearranged.likeness.alike
  bindings _ _ same := same
  find scope other name same := by
    rintro memory _ rfl
    have question := same.sameNames.question_eq name
    rcases known : memory.lookup (scope.question name) with _ | finding
    · have otherKnown := known
      rw [question] at otherKnown
      have tallies := same.discover Object.DistinctRearranged.likeness name
      generalize found : scope.discover name = answer, otherFound : other.discover name = otherAnswer
        at tallies
      rcases tallies with rfl | faultSame
      · rw [Resolver.find_discovered known found, Resolver.find_discovered otherKnown otherFound,
          question]
        exact ⟨.ok ⟨rfl, trivial⟩, rfl⟩
      · rw [Resolver.find_failed known found, Resolver.find_failed otherKnown otherFound]
        exact ⟨.error faultSame, rfl⟩
    · have otherKnown := known
      rw [question] at otherKnown
      rw [Resolver.find_remembered known, Resolver.find_remembered otherKnown]
      exact ⟨.ok ⟨rfl, trivial⟩, rfl⟩

theorem Lockstep.persists_rearranged : rearranged.Persists fun _ _ => True where
  found _ _ _ _ _ _ _ same _ _ _ alike := .cons ⟨rfl, alike⟩ same
  exposed _ _ _ _ _ _ _ same _ _ _ alike := .cons ⟨rfl, alike⟩ same

/-- The order in which attributes are declared makes no difference to what a template emits, nor to
the kind and the place of the error if it fails. -/
theorem renderLines_of_rearranged (engine : Engine) (template : Template) (name : String)
    {root other : Object} (rearranged : root.Rearranged other) (distinct : root.NamesDistinct) :
    (∃ lines, engine.renderLines template name root = .ok lines ∧
      engine.renderLines template name other = .ok lines) ∨
    ∃ error otherError, engine.renderLines template name root = .error error ∧
      engine.renderLines template name other = .error otherError ∧
      error.fault.category = otherError.fault.category ∧ error.place = otherError.place := by
  have inStep := Lockstep.rearranged.expandAfter Lockstep.persists_rearranged engine.separator
    (Scope.corresponds_root name ⟨rearranged, distinct⟩) .nil
    (Body.Alike.refl (fun _ => rfl) template.body) fun _ _ => trivial
  have tallies : Tallies
      (fun error otherError => error.fault.category = otherError.fault.category ∧
        error.place = otherError.place) Eq (engine.renderLines template name root)
      (engine.renderLines template name other) := by
    apply (inStep [] [] rfl).1.mapError
    rintro located otherLocated ⟨category, span⟩
    have place : located.span = otherLocated.span := span
    exact ⟨category, by simp only [Error.ofLocated, place]⟩
  generalize engine.renderLines template name root = result,
    engine.renderLines template name other = otherResult at tallies ⊢
  rcases tallies with @⟨lines, _, rfl⟩ | @⟨error, otherError, same⟩
  · exact Or.inl ⟨lines, rfl, rfl⟩
  · exact Or.inr ⟨error, otherError, rfl, rfl, same⟩

/-- Two groups with labels and tags. -/
def grouped : Object :=
  .mk [("title", .value (.string "t")),
    ("groups", .relation [.mk [("label", .value (.string "a")), ("tags", .relation [])],
      .mk [("label", .value (.string "b")), ("tags", .relation [.mk [], .mk []])]])]

/-- The same groups with all attributes declared the other way round. -/
def groupedBackwards : Object :=
  .mk [("groups", .relation [.mk [("tags", .relation []), ("label", .value (.string "a"))],
      .mk [("tags", .relation [.mk [], .mk []]), ("label", .value (.string "b"))]]),
    ("title", .value (.string "t"))]

/-- A line that names the title and the label of a group. -/
def titleAndLabel : Template :=
  ⟨"{title}{group.label}",
    .line ⟨[.placeholder ⟨⟨"title", ⟨1, 6⟩⟩, [], ⟨0, 7⟩⟩,
      .placeholder ⟨⟨"group", ⟨8, 13⟩⟩, [⟨"label", ⟨14, 19⟩⟩], ⟨7, 20⟩⟩], ⟨0, 20⟩⟩ .nil⟩

theorem rearranged_grouped : grouped.Rearranged groupedBackwards := by
  refine .mk (List.Perm.swap _ _ []) (.cons _ (.relation ?_) (.cons _ (.value _) .nil))
  refine .cons (.mk (List.Perm.swap _ _ []) (.cons _ ?_ (.cons _ (.value _) .nil)))
    (.cons (.mk (List.Perm.swap _ _ []) (.cons _ ?_ (.cons _ (.value _) .nil))) .nil)
  · exact .relation .nil
  · have blank : (Object.mk []).Rearranged (.mk []) := .mk (List.Perm.refl []) .nil
    exact .relation (.cons blank (.cons blank .nil))

theorem namesDistinct_grouped : grouped.NamesDistinct := by
  simp [grouped, Object.NamesDistinct, Object.AttrsNamesDistinct, Object.ElementsNamesDistinct,
    Attr.NamesDistinct, Value.KeysDistinct, Fields.Distinct, Fields.keys]

theorem renderLines_groupedBackwards :
    Engine.renderLines {} titleAndLabel "root" groupedBackwards = .ok ["ta", "tb"] := by
  have forwards : Engine.renderLines {} titleAndLabel "root" grouped = .ok ["ta", "tb"] := by
    rw [Engine.renderLines, Template.expandLines, Resolver.remembering_eq_insertionSort]
    decide +kernel
  rcases renderLines_of_rearranged {} titleAndLabel "root" rearranged_grouped namesDistinct_grouped
    with ⟨lines, same, backwards⟩ | ⟨error, _, fails, _⟩
  · rw [forwards] at same
    rw [backwards, same]
  · rw [forwards] at fails
    cases fails

end GraphTemplate
