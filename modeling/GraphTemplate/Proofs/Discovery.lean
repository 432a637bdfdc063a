import GraphTemplate.Discovery
import GraphTemplate.Proofs.Relation.Elements
import Mathlib.Data.List.Sort
import Mathlib.Data.String.Basic

/-!
# Discovery in a scope

The visible bindings of a scope, its bound names and the meaning of its names agree.  A question
that is put to a resolver depends on a scope only by the names that are bound in it, whatever they
are bound to.  What is found below the innermost binding alone is what the name stands for.
-/

namespace GraphTemplate

namespace Fields

theorem keys_foldl_congr {α : Type} {entries others : List (String × α)} {start other : Fields α}
    (sameStart : start.keys = other.keys) (same : entries.map Prod.fst = others.map Prod.fst) :
    keys (entries.foldl (fun fields entry => fields.insert entry.1 entry.2) start) =
      keys (others.foldl (fun fields entry => fields.insert entry.1 entry.2) other) := by
  induction entries generalizing others start other with
  | nil =>
      rw [List.map_nil, eq_comm, List.map_eq_nil_iff] at same
      subst same
      exact sameStart
  | cons entry rest ih =>
      rcases others with _ | ⟨first, more⟩
      · cases same
      · simp only [List.map_cons, List.cons.injEq] at same
        apply ih _ same.2
        rw [keys_insert, keys_insert, sameStart, same.1]

end Fields

namespace Scope

/-- Every scope is the scope of a root or binds one more name in a smaller scope. -/
theorem induction_bind {motive : Scope → Prop}
    (root : ∀ name object, motive (root name object))
    (bind : ∀ scope name object, motive scope → motive (scope.bind name object)) (scope : Scope) :
    motive scope := by
  rcases scope with ⟨innermost, outer⟩
  induction outer generalizing innermost with
  | nil => exact root innermost.name innermost.object
  | cons next outer ih => exact bind ⟨next, outer⟩ innermost.name innermost.object (ih next)

@[simp]
theorem innermost_bind (scope : Scope) (name : String) (object : Object) :
    (scope.bind name object).innermost = ⟨name, object⟩ :=
  rfl

@[simp]
theorem innermost_root (name : String) (object : Object) :
    (root name object).innermost = ⟨name, object⟩ :=
  rfl

theorem candidates_bind (scope : Scope) (name : String) (object : Object) :
    (scope.bind name object).candidates = scope.candidates.insert name object := by
  simp [candidates, bindings, bind, Fields.ofList]

theorem lookup?_root (name : String) (object : Object) (other : String) :
    (root name object).lookup? other = if name = other then some object else none := by
  by_cases same : name = other <;> simp [lookup?, root, bindings, same]

theorem get?_candidates (scope : Scope) (name : String) :
    scope.candidates.get? name = scope.lookup? name := by
  induction scope using induction_bind with
  | root bound object => rw [lookup?_root]; rfl
  | bind scope bound object ih =>
      rw [candidates_bind, lookup?_bind]
      split
      · rename_i same
        rw [same, Fields.get?_insert_self]
      · rename_i different
        rw [Fields.get?_insert_of_ne _ _ different, ih]

theorem mem_names_iff {scope : Scope} {name : String} :
    name ∈ scope.names ↔ (scope.lookup? name).isSome := by
  rw [names, (List.mergeSort_perm _ _).mem_iff, ← Fields.get?_isSome_iff, get?_candidates]

theorem lookup?_innermost (scope : Scope) :
    scope.lookup? scope.innermost.name = some scope.innermost.object := by
  simp [lookup?, bindings]

theorem ne_innermost_of_unbound {scope : Scope} {name : String}
    (unbound : scope.lookup? name = none) : name ≠ scope.innermost.name := by
  rintro rfl
  rw [lookup?_innermost] at unbound
  cases unbound

/-- The same names are bound in the same order. -/
def SameNames (scope other : Scope) : Prop :=
  scope.bindings.map Binding.name = other.bindings.map Binding.name

theorem SameNames.bind {scope other : Scope} (same : scope.SameNames other) (name : String)
    (object otherObject : Object) :
    (scope.bind name object).SameNames (other.bind name otherObject) := by
  simp only [SameNames, Scope.bind, bindings, List.map_cons, List.cons.injEq, true_and] at same ⊢
  exact same

theorem SameNames.question_eq {scope other : Scope} (same : scope.SameNames other)
    (name : String) : scope.question name = other.question name := by
  have keys : scope.candidates.keys = other.candidates.keys := by
    apply Fields.keys_foldl_congr rfl
    simpa [List.map_reverse, List.map_map, Function.comp_def] using congrArg List.reverse same
  have innermost : scope.innermost.name = other.innermost.name := (List.cons.inj same).1
  simp only [question, names, keys, innermost]

/-- The innermost binding is visible, so a single candidate is that one. -/
theorem candidates_of_single {scope : Scope} (single : ¬1 < scope.candidates.length) :
    scope.candidates = [(scope.innermost.name, scope.innermost.object)] := by
  have member := Fields.mem_of_get?_eq_some
    ((get?_candidates scope _).trans (lookup?_innermost scope))
  rcases candidates : scope.candidates with _ | ⟨first, _ | ⟨second, more⟩⟩
  · simp [candidates] at member
  · simpa [candidates, eq_comm] using member
  · simp [candidates] at single

theorem relationRoute?_eq (scope : Scope) (name : String) :
    scope.relationRoute? name =
      findRelation? [(scope.innermost.name, scope.innermost.object)] name >>= fun nearest =>
        match nearest with
        | some route => .ok (some route)
        | none => findRelation? scope.candidates name := by
  unfold relationRoute?
  by_cases several : 1 < scope.candidates.length
  · rw [if_pos several]
    congr 1
    funext nearest
    cases nearest <;> rfl
  · rw [if_neg several, candidates_of_single several]
    rcases findRelation? [(scope.innermost.name, scope.innermost.object)] name with
      fault | (_ | route) <;> rfl

theorem relationRoute?_eq_some_iff {scope : Scope} {name : String} {route : Route} :
    scope.relationRoute? name = .ok (some route) ↔
      findRelation? [(scope.innermost.name, scope.innermost.object)] name = .ok (some route) ∨
      findRelation? [(scope.innermost.name, scope.innermost.object)] name = .ok none ∧
        findRelation? scope.candidates name = .ok (some route) := by
  rw [relationRoute?_eq]
  rcases findRelation? [(scope.innermost.name, scope.innermost.object)] name with
    fault | (_ | nearest) <;> simp [Bind.bind, Except.bind]

theorem discover_of_innermost {scope : Scope} {name : String} {route : Route}
    (found : findRelation? [(scope.innermost.name, scope.innermost.object)] name =
      .ok (some route)) : scope.discover name = .ok (.relation route) := by
  unfold discover
  simp [relationRoute?_eq, found, Bind.bind, Except.bind, pure, Except.pure]

end Scope

theorem Memory.mem_of_lookup {memory : Memory} {question : Question} {finding : Finding}
    (known : memory.lookup question = some finding) : (question, finding) ∈ memory := by
  rcases List.lookup_eq_some_iff.mp known with ⟨later, earlier, rfl, _⟩
  exact List.mem_append_right _ List.mem_cons_self

namespace Resolver

variable {scope : Scope} {name : String} {memory : Memory} {finding : Finding}

theorem find_remembered (known : memory.lookup (scope.question name) = some finding) :
    (remembering.find scope name).run.run memory = (.ok finding, memory) := by
  simp only [remembering, ExceptT.run, StateT.run, ExceptT.mk, known]

theorem find_discovered (unknown : memory.lookup (scope.question name) = none)
    (discovered : scope.discover name = .ok finding) :
    (remembering.find scope name).run.run memory =
      (.ok finding, (scope.question name, finding) :: memory) := by
  simp only [remembering, ExceptT.run, StateT.run, ExceptT.mk, unknown, discovered]

theorem find_failed {fault : Fault} (unknown : memory.lookup (scope.question name) = none)
    (failed : scope.discover name = .error fault) :
    (remembering.find scope name).run.run memory = (.error fault, memory) := by
  simp only [remembering, ExceptT.run, StateT.run, ExceptT.mk, unknown, failed]

/-- Looks once for each question, however the question is made from a scope and a name. -/
def rememberingBy (question : Scope → String → Question) : Resolver Memory where
  find scope name := ExceptT.mk fun memory =>
    match memory.lookup (question scope name) with
    | some finding => (.ok finding, memory)
    | none =>
        match scope.discover name with
        | .ok finding => (.ok finding, (question scope name, finding) :: memory)
        | .error fault => (.error fault, memory)

/-- The bound names of a question can be put in order one by one, which unlike `List.mergeSort`
evaluates in the kernel. -/
theorem remembering_eq_insertionSort :
    remembering = rememberingBy fun scope name =>
      ⟨name, scope.innermost.name, scope.candidates.keys.insertionSort (· ≤ ·)⟩ := by
  have sorted : ∀ scope : Scope, scope.names = scope.candidates.keys.insertionSort (· ≤ ·) :=
    fun scope => List.mergeSort_eq_insertionSort (· ≤ ·) scope.candidates.keys
  simp only [← sorted]
  rfl

end Resolver

end GraphTemplate
