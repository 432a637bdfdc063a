import GraphTemplate.Engine
import GraphTemplate.Proofs.Discovery
import GraphTemplate.Proofs.Relation.Outline

/-!
# Precedence of bindings

The innermost binding is searched for a relation by itself.  If nothing is found there, all visible
bindings are searched together, and then those further out are rivals of those further in: a relation
that one of them exposes is found before any that is only below, and relations that are found equally
deep collide.
-/

namespace GraphTemplate

namespace Leads

variable {relation : String} {candidates : Fields Object}

/-- Candidates lead on as each of them does alone, except that those that do not expose the relation
themselves lead nowhere as long as another one exposes it. -/
theorem iff_alone {positions : List Nat} {route : Route} :
    Leads relation candidates positions route ↔
      ∃ position further candidate, positions = position :: further ∧
        candidates[position]? = some candidate ∧ Leads relation [candidate] (0 :: further) route ∧
        ((candidate.2.relation? relation).isSome ∨
          ∀ other ∈ candidates, other.2.relation? relation = none) := by
  constructor
  · intro leads
    cases leads with
    | direct found exposed => exact ⟨_, _, _, rfl, found, .direct rfl exposed, Or.inl exposed⟩
    | through unexposed found onward =>
        refine ⟨_, _, _, rfl, found, .through ?_ rfl onward, Or.inr unexposed⟩
        simpa using unexposed _ (List.mem_of_getElem? found)
  · rintro ⟨position, further, ⟨owner, object⟩, rfl, found, alone, decisive⟩
    rcases single_iff.mp alone with ⟨exposed, same, rfl⟩ | ⟨hidden, _, inner, same, rfl, onward⟩
    · cases same
      exact .direct found exposed
    · cases same
      rcases decisive with exposed | unexposed
      · simp [hidden] at exposed
      · exact .through unexposed found onward

theorem owner_eq {candidate : String × Object} {positions : List Nat} {route : Route}
    (alone : Leads relation [candidate] positions route) : route.owner = candidate.1 := by
  rcases single_iff.mp alone with ⟨_, _, rfl⟩ | ⟨_, _, _, _, rfl, _⟩ <;> rfl

theorem exists_of_alone {candidate : String × Object} {positions : List Nat} {route : Route}
    (member : candidate ∈ candidates) (alone : Leads relation [candidate] positions route)
    (decisive : (candidate.2.relation? relation).isSome ∨
      ∀ other ∈ candidates, other.2.relation? relation = none) :
    ∃ wholePositions, Leads relation candidates wholePositions route := by
  rcases List.mem_iff_getElem?.mp member with ⟨position, found⟩
  rcases iff_alone.mp alone with ⟨index, further, _, rfl, single, _⟩
  have first : index = 0 := by
    by_contra later
    rw [List.getElem?_eq_none (by simp; omega)] at single
    cases single
  subst first
  exact ⟨_, iff_alone.mpr ⟨position, further, candidate, rfl, found, alone, decisive⟩⟩

end Leads

/-- A candidate is a rival of another one for a relation if it exposes the relation itself, or if it
leads there as well and the other one does not expose it. -/
def IsRival (relation : String) (candidate rival : String × Object) : Prop :=
  (rival.2.relation? relation).isSome ∨ candidate.2.relation? relation = none ∧
    ∃ positions route, Leads relation [rival] positions route

theorem Fields.eq_of_mem {α : Type} {fields : Fields α} {entry other : String × α}
    (distinct : fields.Distinct) (member : entry ∈ fields) (otherMember : other ∈ fields)
    (same : entry.1 = other.1) : entry = other := by
  have found := Fields.get?_eq_some_of_mem distinct member
  rw [same, Fields.get?_eq_some_of_mem distinct otherMember] at found
  exact Prod.ext same (Option.some.inj found).symm

namespace LeadsOnly

variable {relation : String} {candidates : Fields Object} {candidate : String × Object}
  {route : Route}

/-- If all candidates lead only to where one of them leads alone, no other one is a rival. -/
theorem not_isRival (distinct : candidates.Distinct) (member : candidate ∈ candidates)
    (alone : LeadsOnly relation [candidate] route) (only : LeadsOnly relation candidates route)
    {rival : String × Object} (rivalMem : rival ∈ candidates) (different : rival ≠ candidate) :
    ¬IsRival relation candidate rival := by
  rcases alone with ⟨_, leads, _⟩
  rcases only with ⟨_, _, unique⟩
  -- A derivation through another candidate would be to a route that begins there.
  have noOther : ∀ other ∈ candidates, other ≠ candidate → ∀ positions otherRoute,
      Leads relation [other] positions otherRoute → ¬((other.2.relation? relation).isSome ∨
        ∀ third ∈ candidates, third.2.relation? relation = none) := by
    intro other otherMem otherDifferent positions otherRoute otherLeads decisive
    rcases Leads.exists_of_alone otherMem otherLeads decisive with ⟨_, whole⟩
    have same := (unique _ _ whole).2
    subst same
    exact otherDifferent (Fields.eq_of_mem distinct otherMem member
      (otherLeads.owner_eq.symm.trans leads.owner_eq))
  rintro (exposed | ⟨hidden, positions, rivalRoute, rivalLeads⟩)
  · rcases LeadsOnly.single_of_exposed exposed with ⟨_, direct, _⟩
    exact noOther rival rivalMem different _ _ direct (Or.inl exposed)
  · by_cases anyExposes : ∃ other ∈ candidates, (other.2.relation? relation).isSome
    · rcases anyExposes with ⟨other, otherMem, exposed⟩
      rcases LeadsOnly.single_of_exposed exposed with ⟨_, direct, _⟩
      refine noOther other otherMem ?_ _ _ direct (Or.inl exposed)
      rintro rfl
      simp [hidden] at exposed
    · refine noOther rival rivalMem different _ _ rivalLeads (Or.inr ?_)
      simpa using anyExposes

/-- What a candidate without rivals leads to alone is what all candidates lead to. -/
theorem of_alone (distinct : candidates.Distinct) (member : candidate ∈ candidates)
    (alone : LeadsOnly relation [candidate] route)
    (unrivalled : ∀ rival ∈ candidates, rival ≠ candidate → ¬IsRival relation candidate rival) :
    LeadsOnly relation candidates route := by
  rcases alone with ⟨positions, leads, unique⟩
  have decisive : (candidate.2.relation? relation).isSome ∨
      ∀ other ∈ candidates, other.2.relation? relation = none := by
    rcases hidden : candidate.2.relation? relation with _ | elements
    · right
      intro other otherMem
      by_cases same : other = candidate
      · rw [same, hidden]
      · exact Option.not_isSome_iff_eq_none.mp fun exposed =>
          unrivalled other otherMem same (Or.inl exposed)
    · exact Or.inl rfl
  have through : ∀ wholePositions other, Leads relation candidates wholePositions other →
      ∃ position further, wholePositions = position :: further ∧
        candidates[position]? = some candidate ∧ Leads relation [candidate] (0 :: further) other := by
    intro wholePositions other whole
    rcases Leads.iff_alone.mp whole with ⟨position, further, first, rfl, found, firstLeads, exposes⟩
    have same : first = candidate := by
      by_contra different
      apply unrivalled first (List.mem_of_getElem? found) different
      exact exposes.imp id fun unexposed => ⟨unexposed candidate member, _, _, firstLeads⟩
    subst same
    exact ⟨position, further, rfl, found, firstLeads⟩
  rcases Leads.exists_of_alone member leads decisive with ⟨wholePositions, whole⟩
  refine ⟨wholePositions, whole, ?_⟩
  intro otherPositions other otherWhole
  rcases through _ _ whole with ⟨position, further, rfl, found, furtherLeads⟩
  rcases through _ _ otherWhole with ⟨otherPosition, otherFurther, rfl, otherFound, otherLeads⟩
  rcases unique _ _ furtherLeads with ⟨same, _⟩
  rcases unique _ _ otherLeads with ⟨otherSame, rfl⟩
  rw [SameOutlines.position_eq distinct found otherFound, List.cons.inj (same.trans otherSame.symm) |>.2]
  exact ⟨rfl, rfl⟩

/-- All candidates lead only to where one of them leads alone if and only if it has no rivals. -/
theorem iff_unrivalled (alone : LeadsOnly relation [candidate] route) (distinct : candidates.Distinct)
    (member : candidate ∈ candidates) : LeadsOnly relation candidates route ↔
      ∀ rival ∈ candidates, rival ≠ candidate → ¬IsRival relation candidate rival :=
  ⟨fun only _ rivalMem => not_isRival distinct member alone only rivalMem,
    of_alone distinct member alone⟩

/-- If all candidates lead only to something else, it is what a rival exposes. -/
theorem exposed_of_ne {other : Route} (alone : LeadsOnly relation [candidate] route)
    (distinct : candidates.Distinct) (member : candidate ∈ candidates)
    (only : LeadsOnly relation candidates other) (different : other ≠ route) :
    candidate.2.relation? relation = none ∧ ∃ rival ∈ candidates, rival ≠ candidate ∧
      (rival.2.relation? relation).isSome ∧ other = ⟨rival.1, [relation]⟩ := by
  rcases alone with ⟨positions, leads, onlyRoute⟩
  rcases only with ⟨_, whole, onlyOther⟩
  rcases Leads.iff_alone.mp whole with ⟨position, further, first, rfl, found, firstLeads, decisive⟩
  have firstMem := List.mem_of_getElem? found
  rcases decisive with exposed | unexposed
  · rcases LeadsOnly.single_of_exposed exposed with ⟨_, _, direct⟩
    have otherEq := (direct _ _ firstLeads).2
    have firstDifferent : first ≠ candidate := by
      rintro rfl
      exact different (onlyRoute _ _ firstLeads).2
    refine ⟨?_, first, firstMem, firstDifferent, exposed, otherEq⟩
    rw [← Option.not_isSome_iff_eq_none]
    intro candidateExposes
    rcases LeadsOnly.single_of_exposed candidateExposes with ⟨_, candidateDirect, _⟩
    rcases Leads.exists_of_alone member candidateDirect (Or.inl candidateExposes) with ⟨_, again⟩
    have sameOwner := congrArg Route.owner (onlyOther _ _ again).2
    rw [otherEq] at sameOwner
    exact firstDifferent (Fields.eq_of_mem distinct firstMem member sameOwner.symm)
  · rcases Leads.exists_of_alone member leads (Or.inr unexposed) with ⟨_, again⟩
    exact absurd (onlyOther _ _ again).2.symm different

theorem exists_of_mem (alone : LeadsOnly relation [candidate] route)
    (member : candidate ∈ candidates) :
    ∃ wholePositions other, Leads relation candidates wholePositions other := by
  rcases alone with ⟨_, leads, _⟩
  by_cases anyExposes : ∃ other ∈ candidates, (other.2.relation? relation).isSome
  · rcases anyExposes with ⟨other, otherMem, exposed⟩
    rcases LeadsOnly.single_of_exposed exposed with ⟨_, direct, _⟩
    rcases Leads.exists_of_alone otherMem direct (Or.inl exposed) with ⟨_, whole⟩
    exact ⟨_, _, whole⟩
  · rcases Leads.exists_of_alone member leads (Or.inr (by simpa using anyExposes)) with ⟨_, whole⟩
    exact ⟨_, _, whole⟩

end LeadsOnly

/-- The bindings that are not hidden by one before them. -/
def Binding.unhidden : List Binding → List Binding
  | [] => []
  | binding :: outer => binding :: (unhidden outer).filter fun other => other.name ≠ binding.name

theorem Binding.mem_unhidden_iff {bindings : List Binding} {binding : Binding} :
    binding ∈ unhidden bindings ↔
      bindings.find? (fun other => other.name == binding.name) = some binding := by
  induction bindings with
  | nil => simp [unhidden]
  | cons first outer ih =>
      rw [unhidden, List.mem_cons, List.mem_filter, ih, List.find?_cons]
      by_cases same : first.name = binding.name
      · simp [same, eq_comm]
      · have different : binding ≠ first := fun equal => same (equal ▸ rfl)
        rw [beq_false_of_ne same]
        simp [Ne.symm same, different]

namespace Scope

/-- The visible bindings from the inside out. -/
def visible (scope : Scope) : List Binding :=
  Binding.unhidden scope.bindings

variable {scope : Scope} {name : String} {route : Route} {inner outer : List Binding}
  {binding : Binding}

theorem mem_candidates_iff {bound : String} {object : Object} :
    (bound, object) ∈ scope.candidates ↔ ⟨bound, object⟩ ∈ scope.visible := by
  rw [visible, Binding.mem_unhidden_iff]
  have distinct : scope.candidates.Distinct := Fields.distinct_ofList _
  constructor
  · intro member
    have meaning := Fields.get?_eq_some_of_mem distinct member
    rw [get?_candidates, lookup?, Option.map_eq_some_iff] at meaning
    rcases meaning with ⟨⟨found, _⟩, isFirst, rfl⟩
    have nameEq : found = bound := by simpa using List.find?_some isFirst
    cases nameEq
    exact isFirst
  · intro isFirst
    apply Fields.mem_of_get?_eq_some
    rw [get?_candidates, lookup?, isFirst]
    rfl

theorem nodup_names_visible (scope : Scope) : (scope.visible.map Binding.name).Nodup := by
  rw [visible]
  generalize scope.bindings = bindings
  induction bindings with
  | nil => exact List.nodup_nil
  | cons first outer ih =>
      rw [Binding.unhidden, List.map_cons, List.nodup_cons]
      constructor
      · simp
      · exact ih.sublist (List.filter_sublist.map _)

end Scope

namespace Binding

/-- What is found for a name on a binding alone. -/
def findAlone? (binding : Binding) (name : String) : Except Fault (Option Route) :=
  findRelation? [(binding.name, binding.object)] name

/-- The binding exposes the relation whose elements have the name. -/
def Exposes (binding : Binding) (name : String) : Prop :=
  (binding.object.relation? (plural name)).isSome

/-- Further out, a binding competes with another one for a name if it exposes the relation itself, or
if something is found on it alone and the other one does not expose the relation. -/
def Competes (rival binding : Binding) (name : String) : Prop :=
  rival.Exposes name ∨ ¬binding.Exposes name ∧ rival.findAlone? name ≠ .ok none

theorem findAlone?_ne_none_iff {binding : Binding} {name : String} :
    binding.findAlone? name ≠ .ok none ↔
      ∃ positions route, Leads (plural name) [(binding.name, binding.object)] positions route := by
  rw [findAlone?, findRelation?_eq_searchLevel, Ne, searchLevel_eq_none_iff]
  push Not
  rfl

theorem competes_iff {rival binding : Binding} {name : String} : rival.Competes binding name ↔
    IsRival (plural name) (binding.name, binding.object) (rival.name, rival.object) := by
  rw [Competes, findAlone?_ne_none_iff, Exposes, Exposes, Option.not_isSome_iff_eq_none, IsRival]

theorem findAlone?_ne_none_of_exposes {binding : Binding} {name : String}
    (exposes : binding.Exposes name) : binding.findAlone? name ≠ .ok none := by
  rcases LeadsOnly.single_of_exposed exposes with ⟨_, leads, _⟩
  exact findAlone?_ne_none_iff.mpr ⟨_, _, leads⟩

end Binding

namespace Scope

variable {scope : Scope} {name : String} {route : Route} {inner outer : List Binding}
  {binding : Binding}

theorem mem_visible_split {other : Binding} (split : scope.visible = inner ++ binding :: outer)
    (member : other ∈ scope.visible) : other ∈ inner ∨ other = binding ∨ other ∈ outer := by
  simpa [split] using member

/-- Of the visible bindings on which nothing is found alone none is a rival. -/
theorem isRival_iff (split : scope.visible = inner ++ binding :: outer)
    (nowhere : ∀ other ∈ inner, other.findAlone? name = .ok none) :
    (∀ rival ∈ scope.candidates, rival ≠ (binding.name, binding.object) →
        ¬IsRival (plural name) (binding.name, binding.object) rival) ↔
      ∀ rival ∈ outer, ¬rival.Competes binding name := by
  constructor
  · intro unrivalled rival rivalMem competes
    have visible : rival ∈ scope.visible := by simp [split, rivalMem]
    refine unrivalled _ (mem_candidates_iff.mpr visible) ?_ (Binding.competes_iff.mp competes)
    intro same
    have nodup := scope.nodup_names_visible
    rw [split, List.map_append, List.map_cons, List.nodup_append, List.nodup_cons] at nodup
    exact nodup.2.1.1 (List.mem_map.mpr ⟨rival, rivalMem, congrArg Prod.fst same⟩)
  · rintro unrivalled ⟨rivalName, object⟩ rivalMem different isRival
    have competes : (⟨rivalName, object⟩ : Binding).Competes binding name :=
      Binding.competes_iff.mpr isRival
    rcases mem_visible_split split (mem_candidates_iff.mp rivalMem) with within | rfl | beyond
    · apply absurd (nowhere _ within)
      exact competes.elim Binding.findAlone?_ne_none_of_exposes And.right
    · exact different rfl
    · exact unrivalled _ beyond competes

/-- With nothing on the innermost binding alone, the candidates decide if one of them leads on. -/
theorem discover_of_candidates
    (nowhere : findRelation? [(scope.innermost.name, scope.innermost.object)] name = .ok none)
    (leads : ∃ positions route, Leads (plural name) scope.candidates positions route) :
    (∀ route, scope.discover name = .ok (.relation route) ↔
        LeadsOnly (plural name) scope.candidates route) ∧
      (∀ finding, scope.discover name = .ok finding → ∃ route, finding = .relation route) ∧
      ∀ fault, scope.discover name = .error fault → fault.category = .ambiguous := by
  have relationRoute : scope.relationRoute? name = findRelation? scope.candidates name := by
    rw [relationRoute?_eq, nowhere]
    rfl
  have led : ∀ route, LeadsOnly (plural name) scope.candidates route ↔
      findRelation? scope.candidates name = .ok (some route) :=
    fun _ => searchLevel_eq_some_iff.symm
  unfold discover
  simp only [led, relationRoute]
  rcases searched : findRelation? scope.candidates name with fault | (_ | route)
  · refine ⟨fun _ => ⟨fun same => (by cases same), fun same => (by cases same)⟩,
      fun _ same => (by cases same), ?_⟩
    rintro _ same
    cases same
    exact (isCollision_of_searchLevel_eq_error searched).1
  · rcases leads with ⟨_, _, whole⟩
    exact absurd whole (searchLevel_eq_none_iff.mp searched _ _)
  · simp [Bind.bind, Except.bind, pure, Except.pure, eq_comm]

/-- Among the visible bindings the innermost one on which a relation is found alone comes first if it
is the innermost of all, or if none further out competes with it.  Otherwise the discovery fails with
an ambiguity, or a binding further out exposes the relation and the first one does not. -/
theorem discover_of_findAlone? (split : scope.visible = inner ++ binding :: outer)
    (nowhere : ∀ other ∈ inner, other.findAlone? name = .ok none)
    (found : binding.findAlone? name = .ok (some route)) :
    (scope.discover name = .ok (.relation route) ↔
      inner = [] ∨ ∀ rival ∈ outer, ¬rival.Competes binding name) ∧
    (∀ finding, scope.discover name = .ok finding → finding ≠ .relation route →
      ∃ rival ∈ outer, rival.Exposes name ∧ ¬binding.Exposes name ∧
        finding = .relation ⟨rival.name, [plural name]⟩) ∧
    ∀ fault, scope.discover name = .error fault → fault.category = .ambiguous := by
  rcases inner with _ | ⟨first, within⟩
  · -- The binding is the innermost one, on which alone something is found.
    cases (List.cons.inj split).1
    have discovered := discover_of_innermost found
    simp [discovered]
  · cases (List.cons.inj split).1
    have distinct : scope.candidates.Distinct := Fields.distinct_ofList _
    have member : (binding.name, binding.object) ∈ scope.candidates :=
      mem_candidates_iff.mpr (by simp [split])
    have alone : LeadsOnly (plural name) [(binding.name, binding.object)] route :=
      searchLevel_eq_some_iff.mp found
    rcases alone.exists_of_mem member with ⟨positions, whole, leads⟩
    rcases discover_of_candidates (nowhere _ List.mem_cons_self) ⟨positions, whole, leads⟩ with
      ⟨related, isRelation, ambiguous⟩
    refine ⟨?_, ?_, ambiguous⟩
    · rw [related, alone.iff_unrivalled distinct member, isRival_iff split nowhere]
      simp
    · intro finding discovered different
      rcases isRelation finding discovered with ⟨other, rfl⟩
      have otherDifferent : other ≠ route := fun equal => different (equal ▸ rfl)
      rcases alone.exposed_of_ne distinct member ((related other).mp discovered) otherDifferent with
        ⟨hidden, ⟨rivalName, object⟩, rivalMem, rivalDifferent, exposes, rfl⟩
      refine ⟨⟨rivalName, object⟩, ?_, exposes, by simp [Binding.Exposes, hidden], rfl⟩
      rcases mem_visible_split split (mem_candidates_iff.mp rivalMem) with inside | rfl | beyond
      · exact absurd (nowhere _ inside) (Binding.findAlone?_ne_none_of_exposes exposes)
      · exact absurd rfl rivalDifferent
      · exact beyond

end Scope

/-- An item that exposes a relation `xs`, next to one with a single empty element. -/
def itemWithXs : Object :=
  .mk [("xs", .relation [.mk [("v", .value (.integer 1))]]), ("bs", .relation [.empty])]

/-- The scope within the elements of the item of a root. -/
def scopeWithin (root : Object) : Scope :=
  ((Scope.root "root" root).bind "a" itemWithXs).bind "b" .empty

/-- A root with nothing but the item. -/
def plainRoot : Object :=
  .mk [("as", .relation [itemWithXs])]

/-- A root that exposes a relation `xs` of its own. -/
def rivalRoot : Object :=
  .mk [("xs", .relation [.mk [("v", .value (.integer 0))]]), ("as", .relation [itemWithXs])]

/-- Nothing is found on the innermost binding, so the relation of the item around it is taken. -/
theorem discover_within_plainRoot :
    (scopeWithin plainRoot).discover "x" = .ok (.relation ⟨"a", ["xs"]⟩) := by
  have nowhere : ∀ other ∈ [(⟨"b", .empty⟩ : Binding)], other.findAlone? "x" = .ok none := by
    rintro other (_ | _)
    · rfl
    · contradiction
  have found : Binding.findAlone? ⟨"a", itemWithXs⟩ "x" = .ok (some ⟨"a", ["xs"]⟩) := rfl
  have unrivalled : ∀ rival ∈ [(⟨"root", plainRoot⟩ : Binding)],
      ¬rival.Competes ⟨"a", itemWithXs⟩ "x" := by
    intro rival member
    rw [List.mem_singleton.mp member]
    simp only [Binding.Competes, Binding.Exposes]
    decide
  have split : (scopeWithin plainRoot).visible =
      [⟨"b", .empty⟩] ++ ⟨"a", itemWithXs⟩ :: [⟨"root", plainRoot⟩] := rfl
  exact (Scope.discover_of_findAlone? split nowhere found).1.mpr (Or.inr unrivalled)

/-- Loops over items and over their elements, around a line for elements of `xs`. -/
def nestedLoops : Template :=
  ⟨"{$as}\n{$bs}\n{x.v}\n{bs$}\n{as$}", .loop ⟨"as", ⟨2, 4⟩⟩ "a" (.loop ⟨"bs", ⟨8, 10⟩⟩ "b"
    (.line ⟨[.placeholder ⟨⟨"x", ⟨13, 14⟩⟩, [⟨"v", ⟨15, 16⟩⟩], ⟨12, 17⟩⟩], ⟨12, 17⟩⟩ .nil) .nil) .nil⟩

/-- The relation of the root makes the one of the item ambiguous, although the item is further in. -/
theorem discover_within_rivalRoot :
    Template.ofLines? .standard ["{$as}", "{$bs}", "{x.v}", "{bs$}", "{as$}"] = .ok nestedLoops ∧
    Engine.renderLines {} nestedLoops "root" rivalRoot =
      .error ⟨.ambiguousRelation "xs" 0 ["root", "a"], some ⟨nestedLoops.source, ⟨13, 14⟩⟩⟩ ∧
    (scopeWithin rivalRoot).visible = [⟨"b", .empty⟩, ⟨"a", itemWithXs⟩, ⟨"root", rivalRoot⟩] ∧
    Binding.findAlone? ⟨"b", .empty⟩ "x" = .ok none ∧
    Binding.findAlone? ⟨"a", itemWithXs⟩ "x" = .ok (some ⟨"a", ["xs"]⟩) ∧
    (scopeWithin rivalRoot).discover "x" = .error (.ambiguousRelation "xs" 0 ["root", "a"]) := by
  refine ⟨by decide +kernel, by decide +kernel, rfl, rfl, rfl, ?_⟩
  decide +kernel

end GraphTemplate
