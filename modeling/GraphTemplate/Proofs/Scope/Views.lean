import GraphTemplate.Proofs.Discovery
import Mathlib.Data.List.Destutter
import Mathlib.Data.List.Sort
import Mathlib.Data.String.Basic

/-!
# Views of a scope

A scope is read in five ways: what a name stands for, which bindings are visible, which names are
bound, which binding is innermost, and where a relation is exposed.  They treat a name that is bound
more than once differently: the visible bindings keep its first place and its last object, the
bound names keep it once, and a hidden binding still exposes its relations.

Whatever names are bound and unbound after the root, the readings agree.
-/

namespace GraphTemplate

namespace Scope

/-- The scope without its innermost binding.  The root cannot be unbound. -/
def unbind? (scope : Scope) : Option Scope :=
  match scope.outer with
  | [] => none
  | next :: outer => some ⟨next, outer⟩

/-- A change that an expansion makes to its scope. -/
inductive Move where
  | bind (name : String) (object : Object)
  | unbind

def move? (scope : Scope) : Move → Option Scope
  | .bind name object => some (scope.bind name object)
  | .unbind => scope.unbind?

/-- The scope after the moves, if none of them unbinds the root. -/
def after? (scope : Scope) (moves : List Move) : Option Scope :=
  moves.foldlM move? scope

/-- The binding that is in force the longest. -/
def outermost (scope : Scope) : Binding :=
  scope.bindings.getLast (List.cons_ne_nil _ _)

/-- The place, counted from the root, of the first binding in force of a name. -/
def firstBound (scope : Scope) (name : String) : ℕ :=
  (scope.bindings.reverse.map Binding.name).idxOf name

/-- The names of all bindings in ascending order, each as often as it is bound. -/
def sortedNames (scope : Scope) : List String :=
  (scope.bindings.map Binding.name).mergeSort fun left right => decide (left ≤ right)

/-- A binding that has a property, while none inside it has. -/
def IsInnermost (scope : Scope) (property : Binding → Prop) (binding : Binding) : Prop :=
  property binding ∧
    ∃ inner outer, scope.bindings = inner ++ binding :: outer ∧ ∀ other ∈ inner, ¬property other

/-- All readings of a scope follow from its bindings in one way. -/
structure ViewsAgree (scope : Scope) : Prop where
  candidates_complete : ∀ name,
    name ∈ scope.candidates.keys ↔ ∃ binding ∈ scope.bindings, binding.name = name
  candidates_once : scope.candidates.keys.Nodup
  candidates_inOrder : scope.candidates.keys.Pairwise fun earlier later =>
    scope.firstBound earlier < scope.firstBound later
  candidates_visible : ∀ name object,
    (name, object) ∈ scope.candidates ↔ scope.lookup? name = some object
  lookup_innermost : ∀ name object,
    scope.lookup? name = some object ↔
      scope.IsInnermost (fun binding => binding.name = name) ⟨name, object⟩
  names_ascending : scope.names.Pairwise (· < ·)
  names_complete : ∀ name, name ∈ scope.names ↔ name ∈ scope.candidates.keys
  names_collapsed : scope.names = scope.sortedNames.destutter (· ≠ ·)
  innermost_visible : (scope.innermost.name, scope.innermost.object) ∈ scope.candidates
  relation_innermost : ∀ relation elements,
    scope.relation? relation = some elements ↔
      ∃ binding,
        scope.IsInnermost (fun binding => (binding.object.relation? relation).isSome) binding ∧
          binding.object.relation? relation = some elements

section Moves

@[simp]
theorem unbind?_bind (scope : Scope) (name : String) (object : Object) :
    (scope.bind name object).unbind? = some scope :=
  rfl

@[simp]
theorem outermost_root (name : String) (object : Object) :
    (root name object).outermost = ⟨name, object⟩ :=
  rfl

@[simp]
theorem outermost_bind (scope : Scope) (name : String) (object : Object) :
    (scope.bind name object).outermost = scope.outermost :=
  List.getLast_cons _

theorem bind_of_unbind? {scope smaller : Scope} (unbound : scope.unbind? = some smaller) :
    scope = smaller.bind scope.innermost.name scope.innermost.object := by
  rcases scope with ⟨innermost, _ | ⟨next, outer⟩⟩
  · cases unbound
  · cases unbound
    rfl

theorem outermost_move {scope next : Scope} {move : Move} (moved : scope.move? move = some next) :
    next.outermost = scope.outermost := by
  cases move with
  | bind name object =>
      cases moved
      exact outermost_bind scope name object
  | unbind =>
      rw [bind_of_unbind? moved, outermost_bind]

/-- No moves unbind the root. -/
theorem outermost_after {scope last : Scope} {moves : List Move}
    (reached : scope.after? moves = some last) : last.outermost = scope.outermost := by
  induction moves generalizing scope with
  | nil =>
      cases reached
      rfl
  | cons move rest ih =>
      rw [after?, List.foldlM_cons, Option.bind_eq_bind, Option.bind_eq_some_iff] at reached
      rcases reached with ⟨next, moved, reached⟩
      rw [ih reached, outermost_move moved]

end Moves

section Visible

theorem bindings_bind (scope : Scope) (name : String) (object : Object) :
    (scope.bind name object).bindings = ⟨name, object⟩ :: scope.bindings :=
  rfl

theorem mem_keys_candidates_iff {scope : Scope} {name : String} :
    name ∈ scope.candidates.keys ↔ ∃ binding ∈ scope.bindings, binding.name = name := by
  rw [← Fields.get?_isSome_iff, get?_candidates, lookup?, Option.isSome_map, List.find?_isSome]
  simp only [beq_iff_eq]

theorem mem_candidates_iff_lookup? {scope : Scope} {name : String} {object : Object} :
    (name, object) ∈ scope.candidates ↔ scope.lookup? name = some object := by
  rw [← get?_candidates]
  refine ⟨fun member => ?_, Fields.mem_of_get?_eq_some⟩
  exact Fields.get?_eq_some_of_mem (Fields.distinct_ofList _) member

/-- A name keeps its first place when more names are bound. -/
theorem firstBound_bind {scope : Scope} {name : String} (bound : name ∈ scope.candidates.keys)
    (other : String) (object : Object) :
    (scope.bind other object).firstBound name = scope.firstBound name := by
  rcases mem_keys_candidates_iff.mp bound with ⟨binding, member, rfl⟩
  rw [firstBound, bindings_bind, List.reverse_cons, List.map_append]
  refine List.idxOf_append_of_mem (List.mem_map_of_mem ?_)
  exact List.mem_reverse.mpr member

theorem firstBound_lt {scope : Scope} {name : String} (bound : name ∈ scope.candidates.keys) :
    scope.firstBound name < scope.bindings.length := by
  rcases mem_keys_candidates_iff.mp bound with ⟨binding, member, rfl⟩
  have found : binding.name ∈ scope.bindings.reverse.map Binding.name :=
    List.mem_map_of_mem (List.mem_reverse.mpr member)
  simpa [firstBound] using List.idxOf_lt_length_of_mem found

theorem firstBound_bind_self {scope : Scope} {name : String}
    (fresh : name ∉ scope.candidates.keys) (object : Object) :
    (scope.bind name object).firstBound name = scope.bindings.length := by
  have absent : name ∉ scope.bindings.reverse.map Binding.name := by
    intro member
    rcases List.mem_map.mp member with ⟨binding, inForce, rfl⟩
    exact fresh (mem_keys_candidates_iff.mpr ⟨binding, List.mem_reverse.mp inForce, rfl⟩)
  rw [firstBound, bindings_bind, List.reverse_cons, List.map_append,
    List.idxOf_append_of_notMem absent]
  simp

/-- The visible bindings stand in the order in which their names were first bound. -/
theorem keys_candidates_inOrder (scope : Scope) :
    scope.candidates.keys.Pairwise fun earlier later =>
      scope.firstBound earlier < scope.firstBound later := by
  induction scope using induction_bind with
  | root name object => exact List.pairwise_singleton _ _
  | bind scope name object ih =>
      have kept : scope.candidates.keys.Pairwise fun earlier later =>
          (scope.bind name object).firstBound earlier <
            (scope.bind name object).firstBound later := by
        refine ih.imp_of_mem fun earlier later ordered => ?_
        rwa [firstBound_bind earlier, firstBound_bind later]
      rw [candidates_bind, Fields.keys_insert]
      split
      · exact kept
      · rename_i fresh
        refine List.pairwise_append.mpr ⟨kept, List.pairwise_singleton _ _, ?_⟩
        intro earlier member later last
        rw [List.mem_singleton.mp last, firstBound_bind member, firstBound_bind_self fresh]
        exact firstBound_lt member

end Visible

section Innermost

theorem lookup?_eq_some_iff {scope : Scope} {name : String} {object : Object} :
    scope.lookup? name = some object ↔
      scope.IsInnermost (fun binding => binding.name = name) ⟨name, object⟩ := by
  rw [lookup?, Option.map_eq_some_iff]
  constructor
  · rintro ⟨binding, found, rfl⟩
    rcases List.find?_eq_some_iff_append.mp found with ⟨same, inner, outer, split, hidden⟩
    rcases beq_iff_eq.mp same with rfl
    refine ⟨rfl, inner, outer, split, fun other member same => ?_⟩
    simpa [same] using hidden other member
  · rintro ⟨-, inner, outer, split, hidden⟩
    refine ⟨⟨name, object⟩, List.find?_eq_some_iff_append.mpr ⟨beq_self_eq_true name, ?_⟩, rfl⟩
    refine ⟨inner, outer, split, fun other member => ?_⟩
    simpa using hidden other member

theorem relation?_eq_some_iff {scope : Scope} {relation : String} {elements : List Object} :
    scope.relation? relation = some elements ↔
      ∃ binding,
        scope.IsInnermost (fun binding => (binding.object.relation? relation).isSome) binding ∧
          binding.object.relation? relation = some elements := by
  rw [relation?, List.findSome?_eq_some_iff]
  constructor
  · rintro ⟨inner, binding, outer, split, exposed, hidden⟩
    refine ⟨binding, ⟨Option.isSome_of_eq_some exposed, inner, outer, split, ?_⟩, exposed⟩
    intro other member
    simp [hidden other member]
  · rintro ⟨binding, ⟨-, inner, outer, split, hidden⟩, exposed⟩
    refine ⟨inner, binding, outer, split, exposed, fun other member => ?_⟩
    simpa using hidden other member

end Innermost

section Names

theorem names_ascending (scope : Scope) : scope.names.Pairwise (· < ·) := by
  have ascending : scope.names.Pairwise (· ≤ ·) := List.pairwise_mergeSort' _ _
  have once : scope.names.Nodup :=
    (List.mergeSort_perm _ _).nodup_iff.mpr (Fields.distinct_ofList _)
  exact ascending.imp₂ (fun _ _ => lt_of_le_of_ne) once

theorem mem_names_iff_mem_keys {scope : Scope} {name : String} :
    name ∈ scope.names ↔ name ∈ scope.candidates.keys :=
  (List.mergeSort_perm _ _).mem_iff

theorem mem_sortedNames_iff {scope : Scope} {name : String} :
    name ∈ scope.sortedNames ↔ name ∈ scope.candidates.keys := by
  rw [sortedNames, (List.mergeSort_perm _ _).mem_iff, List.mem_map, mem_keys_candidates_iff]

/-- Dropping the repetitions among the sorted names leaves the bound names: both ascend and have the
same members. -/
theorem names_eq_destutter (scope : Scope) :
    scope.names = scope.sortedNames.destutter (· ≠ ·) := by
  have sorted : scope.sortedNames.Pairwise (· ≤ ·) := List.pairwise_mergeSort' _ _
  have ascending : scope.sortedNames.dedup.Pairwise (· < ·) :=
    (sorted.sublist (List.dedup_sublist _)).imp₂ (fun _ _ => lt_of_le_of_ne) (List.nodup_dedup _)
  rw [sorted.destutter_eq_dedup]
  refine scope.names_ascending.eq_of_mem_iff ascending fun name => ?_
  rw [mem_names_iff_mem_keys, List.mem_dedup, mem_sortedNames_iff]

end Names

theorem viewsAgree (scope : Scope) : scope.ViewsAgree where
  candidates_complete _ := mem_keys_candidates_iff
  candidates_once := Fields.distinct_ofList _
  candidates_inOrder := scope.keys_candidates_inOrder
  candidates_visible _ _ := mem_candidates_iff_lookup?
  lookup_innermost _ _ := lookup?_eq_some_iff
  names_ascending := scope.names_ascending
  names_complete _ := mem_names_iff_mem_keys
  names_collapsed := scope.names_eq_destutter
  innermost_visible := mem_candidates_iff_lookup?.mpr scope.lookup?_innermost
  relation_innermost _ _ := relation?_eq_some_iff

/-- Whatever names are bound and unbound after the root, the root stays bound and the readings of
the scope agree. -/
theorem viewsAgree_of_after {name : String} {object : Object} {moves : List Move} {scope : Scope}
    (reached : (root name object).after? moves = some scope) :
    scope.outermost = ⟨name, object⟩ ∧ scope.ViewsAgree :=
  ⟨(outermost_after reached).trans (outermost_root name object), scope.viewsAgree⟩

/-- The name of the root is bound again, and a third name is bound and unbound. -/
theorem viewsAgree_of_after_rebinding :
    let before := (root "a" .empty).bind "b" .empty
    let scope := before.bind "a" (.mk [("x", .relation [])])
    (root "a" .empty).after? [.bind "b" .empty, .bind "a" (.mk [("x", .relation [])]),
        .bind "c" .empty, .unbind] = some scope ∧
      scope.outermost = ⟨"a", .empty⟩ ∧ scope.ViewsAgree := by
  intro before scope
  have reached : (root "a" .empty).after? [.bind "b" .empty,
      .bind "a" (.mk [("x", .relation [])]), .bind "c" .empty, .unbind] = some scope := rfl
  exact ⟨reached, viewsAgree_of_after reached⟩

end Scope

end GraphTemplate
