import GraphTemplate.Relation.Route
import GraphTemplate.Template.Compile

/-!
# Loops of compiled templates

Every loop of a compiled template binds the singular of the name of its relation.  This holds of the
loops that are open while lines are read, and of those in the bodies before them.
-/

namespace GraphTemplate

theorem plural_of_singular? {name element : String} (singular : singular? name = some element) :
    plural element = name := by
  unfold singular? at singular
  dsimp only at singular
  split at singular
  · rename_i isPlural
    cases singular
    rcases List.getLast?_eq_some_iff.mp isPlural.1 with ⟨stem, letters⟩
    rw [← String.toList_inj, plural, letters]
    simp
  · cases singular

namespace Body

/-- The relations of the loops of a body and the names of their elements, inner loops included. -/
def loops : Body → List (String × String)
  | nil => []
  | text _ _ rest => rest.loops
  | line _ rest => rest.loops
  | loop relation element inner rest => (relation.name, element) :: inner.loops ++ rest.loops

/-- Every loop binds the singular of the name of its relation. -/
def BindsSingulars (body : Body) : Prop :=
  ∀ loop ∈ body.loops, loop.1 = plural loop.2

theorem bindsSingulars_nil : nil.BindsSingulars := by
  intro loop member
  cases member

theorem bindsSingulars_loop {relation : Ident} {element : String} {inner rest : Body}
    (same : relation.name = plural element) (innerBinds : inner.BindsSingulars)
    (restBinds : rest.BindsSingulars) : (loop relation element inner rest).BindsSingulars := by
  intro loop member
  rcases List.mem_cons.mp member with rfl | member
  · exact same
  · rcases List.mem_append.mp member with inside | behind
    · exact innerBinds loop inside
    · exact restBinds loop behind

theorem BindsSingulars.reverseOnto {body done : Body} (binds : body.BindsSingulars)
    (doneBinds : done.BindsSingulars) : (body.reverseOnto done).BindsSingulars := by
  induction body generalizing done with
  | nil => exact doneBinds
  | text content span rest ih => exact ih binds doneBinds
  | line content rest ih => exact ih binds doneBinds
  | loop relation element inner rest innerIh restIh =>
      simp only [BindsSingulars, loops, List.cons_append, List.mem_cons, List.mem_append,
        forall_eq_or_imp] at binds
      apply restIh fun loop member => binds.2 loop (Or.inr member)
      exact bindsSingulars_loop binds.1 (fun loop member => binds.2 loop (Or.inl member)) doneBinds

theorem BindsSingulars.reverse {body : Body} (binds : body.BindsSingulars) :
    body.reverse.BindsSingulars :=
  binds.reverseOnto bindsSingulars_nil

end Body

namespace Nesting

/-- Every loop read so far, open or closed, binds the singular of the name of its relation. -/
structure BindsSingulars (nesting : Nesting) : Prop where
  current : nesting.current.BindsSingulars
  opened : ∀ loop ∈ nesting.loops, loop.relation.name = plural loop.element ∧
    loop.before.BindsSingulars

theorem bindsSingulars_start : start.BindsSingulars where
  current := Body.bindsSingulars_nil
  opened _ member := by cases member

theorem BindsSingulars.add {nesting after : Nesting} {line : LineClass}
    (binds : nesting.BindsSingulars) (added : nesting.add line = .ok after) :
    after.BindsSingulars := by
  rcases line with ⟨content, span⟩ | content | ⟨opens, name, span⟩ | second
  · cases added
    exact ⟨binds.current, binds.opened⟩
  · cases added
    exact ⟨binds.current, binds.opened⟩
  · cases opens with
    | true =>
        rcases singular : singular? name.name with _ | element
        · simp [Nesting.add, singular] at added
        · simp only [Nesting.add, singular, Except.ok.injEq] at added
          subst added
          refine ⟨Body.bindsSingulars_nil, ?_⟩
          intro loop member
          rcases List.mem_cons.mp member with rfl | before
          · exact ⟨(plural_of_singular? singular).symm, binds.current⟩
          · exact binds.opened loop before
    | false =>
        rcases nested : nesting.loops with _ | ⟨innermost, outer⟩
        · simp [Nesting.add, nested] at added
        · by_cases closes : innermost.relation.name = name.name
          · have opened := binds.opened
            rw [nested] at opened
            rcases opened innermost List.mem_cons_self with ⟨same, before⟩
            simp only [Nesting.add, nested, closes, if_true, Except.ok.injEq] at added
            subst added
            constructor
            · exact Body.bindsSingulars_loop same binds.current.reverse before
            · exact fun loop member => opened loop (List.mem_cons_of_mem _ member)
          · simp [Nesting.add, nested, closes] at added
  · cases added

theorem BindsSingulars.foldlM {lines : List LineClass} {nesting after : Nesting}
    (binds : nesting.BindsSingulars) (read : lines.foldlM Nesting.add nesting = .ok after) :
    after.BindsSingulars := by
  induction lines generalizing nesting with
  | nil =>
      cases read
      exact binds
  | cons line rest ih =>
      rw [List.foldlM_cons] at read
      rcases added : nesting.add line with located | next
      · simp [added, Bind.bind, Except.bind] at read
      · rw [added] at read
        exact ih (binds.add added) read

end Nesting

theorem Body.bindsSingulars_of_ofLines? {lines : List LineClass} {body : Body}
    (read : Body.ofLines? lines = .ok body) : body.BindsSingulars := by
  unfold Body.ofLines? at read
  rcases folded : lines.foldlM Nesting.add Nesting.start with located | nesting
  · simp [folded, Bind.bind, Except.bind] at read
  · simp only [folded, Bind.bind, Except.bind, Nesting.finish] at read
    split at read
    · cases read
      exact (Nesting.bindsSingulars_start.foldlM folded).current.reverse
    · cases read

namespace Template

/-- The template is the result of compiling lines. -/
def Compiled (template : Template) : Prop :=
  ∃ d source lines, ofSourceLines? d source lines = .ok template

/-- Every loop of a compiled template binds the singular of the name of its relation. -/
theorem Compiled.bindsSingulars {template : Template} (compiled : template.Compiled) :
    template.body.BindsSingulars := by
  rcases compiled with ⟨d, source, lines, same⟩
  unfold ofSourceLines? at same
  split at same
  · rename_i body read
    cases same
    exact Body.bindsSingulars_of_ofLines? read
  · cases same

end Template

end GraphTemplate
