import GraphTemplate.Engine
import GraphTemplate.Proofs.Expansion.Agreement
import GraphTemplate.Proofs.Uniformity

/-!
# Expansion with and without memory

What is found for a question is remembered under names, although it depends on the objects that are
bound to them.  An expansion that remembers gives the same as one that looks every time, provided that
looking never finds something else for a question that was answered before.  In a uniform graph it
never does.  In other graphs it may, and then the remembered answer can be wrong.
-/

namespace GraphTemplate

/-- The questions of an expansion and what was found for them, the latest first. -/
abbrev Transcript := List (Question × Except Fault Finding)

/-- Once a question is answered, the same is found for it every time. -/
def Transcript.Consistent (log : Transcript) : Prop :=
  log.Pairwise fun later earlier => later.1 = earlier.1 →
    ∀ finding, earlier.2 = .ok finding → later.2 = .ok finding

/-- Looks every time and writes down what was found. -/
def Resolver.recording : Resolver Transcript where
  find scope name := ExceptT.mk fun log =>
    (scope.discover name, (scope.question name, scope.discover name) :: log)

namespace Engine

variable (engine : Engine) (template : Template) (name : String) (root : Object)

/-- The pieces of text that a template emits if nothing is remembered. -/
def renderLinesAfresh : Except Error (List String) :=
  let expansion := template.body.expand Resolver.fresh engine.separator (Scope.root name root)
  (expansion.run.run ()).1.mapError (Error.ofLocated template.source)

/-- All questions of an expansion in which nothing is remembered. -/
def transcript : Transcript :=
  let expansion := template.body.expand Resolver.recording engine.separator (Scope.root name root)
  (expansion.run.run []).2

end Engine

namespace Transcript

/-- Everything that is remembered was found in the transcript. -/
def Covers (log : Transcript) (memory : Memory) : Prop :=
  ∀ question finding, memory.lookup question = some finding → (question, .ok finding) ∈ log

theorem covers_nil : Covers [] [] := by
  intro question finding known
  cases known

namespace Covers

variable {log : Transcript} {memory : Memory}

theorem cons (covers : Covers log memory) (entry : Question × Except Fault Finding) :
    Covers (entry :: log) memory :=
  fun question finding known => List.mem_cons_of_mem _ (covers question finding known)

theorem remember (covers : Covers log memory) (question : Question) (finding : Finding) :
    Covers ((question, .ok finding) :: log) ((question, finding) :: memory) := by
  intro other answer known
  by_cases same : other = question
  · subst same
    rw [List.lookup_cons_self] at known
    cases known
    exact List.mem_cons_self
  · rw [List.lookup_cons, beq_false_of_ne same] at known
    exact covers.cons _ other answer known

/-- Memory answers like a look, unless the look spoils the consistency of the transcript. -/
theorem find {scope : Scope} {name : String} (covers : Covers log memory)
    (consistent : Consistent ((scope.question name, scope.discover name) :: log)) :
    ((Resolver.remembering.find scope name).run.run memory).1 = scope.discover name ∧
      Covers ((scope.question name, scope.discover name) :: log)
        ((Resolver.remembering.find scope name).run.run memory).2 := by
  rcases known : memory.lookup (scope.question name) with _ | finding
  · rcases found : scope.discover name with fault | finding
    · rw [Resolver.find_failed known found]
      exact ⟨rfl, covers.cons _⟩
    · rw [Resolver.find_discovered known found]
      exact ⟨rfl, covers.remember _ _⟩
  · have again := (List.pairwise_cons.mp consistent).1 _ (covers _ _ known) rfl finding rfl
    rw [Resolver.find_remembered known]
    exact ⟨again.symm, covers.cons _⟩

end Covers

end Transcript

namespace Comparison

/-- Looking is compared with remembering as long as the transcript is consistent. -/
def remembered : Comparison Transcript Memory where
  reference := Resolver.recording
  other := Resolver.remembering
  related := Transcript.Covers
  sound := Transcript.Consistent
  fits _ := True
  loops _ _ := True
  looks _ _ _ := rfl
  sound_of_find _ _ _ consistent := (List.pairwise_cons.mp consistent).2
  find_eq _ _ _ _ _ covers consistent := covers.find consistent
  fits_of_discover _ _ _ _ _ _ _ _ _ := trivial
  fits_of_loop _ _ _ _ _ _ _ _ _ := trivial

/-- Looking with and without a transcript are the same.  The questions written down are asked in
scopes that fit. -/
def recorded (fits : Scope → Prop) (loops : String → String → Prop)
    (fits_of_discover : ∀ scope name route elements element, fits scope →
      scope.discover name = .ok (.relation route) → scope.elements route = .ok elements →
      element ∈ elements → fits (scope.bind name element))
    (fits_of_loop : ∀ scope relation name elements element, fits scope → loops relation name →
      scope.relation? relation = some elements → element ∈ elements →
      fits (scope.bind name element)) : Comparison Transcript Unit where
  reference := Resolver.recording
  other := Resolver.fresh
  related log _ := ∀ entry ∈ log, ∃ scope name, fits scope ∧
    entry = (scope.question name, scope.discover name)
  sound _ := True
  fits := fits
  loops := loops
  looks _ _ _ := rfl
  sound_of_find _ _ _ _ := trivial
  find_eq scope name log _ scopeFits related _ := by
    refine ⟨rfl, ?_⟩
    intro entry member
    rcases List.mem_cons.mp member with rfl | earlier
    · exact ⟨scope, name, scopeFits, rfl⟩
    · exact related entry earlier
  fits_of_discover := fits_of_discover
  fits_of_loop := fits_of_loop

def anywhere : Comparison Transcript Unit :=
  recorded (fun _ => True) (fun _ _ => True) (fun _ _ _ _ _ _ _ _ _ => trivial)
    fun _ _ _ _ _ _ _ _ _ => trivial

/-- All questions are asked in scopes in which only objects of the graph are bound, each to a name
that it can be bound to. -/
def withinGraph (rootName : String) (root : Object) : Comparison Transcript Unit :=
  recorded (Scope.Fits rootName root) (fun relation name => relation = plural name)
    (fun _ _ _ _ _ fits found walked member => fits.of_discover found walked member)
    (by
      rintro scope _ name elements element fits rfl exposed member
      exact fits.of_relation? exposed member)

end Comparison

namespace Engine

variable {engine : Engine} {template : Template} {name : String} {root : Object}

theorem consistent_transcript_of_uniform (compiled : template.Compiled)
    (uniform : root.Uniform name) : (engine.transcript template name root).Consistent := by
  have agrees := (Comparison.withinGraph name root).agrees_expandAfter engine.separator
    (Scope.root name root) [] template.body compiled.bindsSingulars Scope.fits_root
  have asked := (agrees.same [] () (fun _ member => by cases member) trivial).2
  apply List.pairwise_of_forall_mem_list
  intro later laterMem earlier earlierMem same finding found
  rcases asked later laterMem with ⟨scope, first, fits, rfl⟩
  rcases asked earlier earlierMem with ⟨other, second, otherFits, rfl⟩
  have names : first = second := congrArg Question.name same
  subst names
  exact Scope.discover_of_question_eq otherFits fits uniform same.symm found

theorem renderLines_eq_of_consistent
    (consistent : (engine.transcript template name root).Consistent) :
    engine.renderLines template name root = engine.renderLinesAfresh template name root := by
  have looked := Comparison.anywhere.agrees_expandAfter engine.separator (Scope.root name root) []
    template.body (fun _ _ => trivial) trivial
  have remembered := Comparison.remembered.agrees_expandAfter engine.separator
    (Scope.root name root) [] template.body (fun _ _ => trivial) trivial
  have lookedSame := (looked.same [] () (fun _ member => by cases member) trivial).1
  have rememberedSame := (remembered.same [] [] Transcript.covers_nil consistent).1
  have same := rememberedSame.trans lookedSame.symm
  exact congrArg (Except.mapError (Error.ofLocated template.source)) same

end Engine

/-- Memory makes no difference to the result of an expansion, lines or error, unless looking finds
something else for a question that was answered before.  When a compiled template is expanded for a
uniform graph that never happens. -/
theorem renderLines_eq_renderLinesAfresh (engine : Engine) (template : Template) (name : String)
    (root : Object) :
    ((engine.transcript template name root).Consistent →
      engine.renderLines template name root = engine.renderLinesAfresh template name root) ∧
    (template.Compiled → root.Uniform name →
      (engine.transcript template name root).Consistent) :=
  ⟨Engine.renderLines_eq_of_consistent, Engine.consistent_transcript_of_uniform⟩

/-- A loop over items around a line for which the elements of a relation of each item are found. -/
def itemsLoop : Template :=
  ⟨"{$items}\n{x.v}\n{items$}", .loop ⟨"items", ⟨2, 7⟩⟩ "item"
    (.line ⟨[.placeholder ⟨⟨"x", ⟨10, 11⟩⟩, [⟨"v", ⟨12, 13⟩⟩], ⟨9, 14⟩⟩], ⟨9, 14⟩⟩ .nil) .nil⟩

theorem ofLines?_itemsLoop :
    Template.ofLines? .standard ["{$items}", "{x.v}", "{items$}"] = .ok itemsLoop := by
  decide +kernel

def numbered (number : Int64) : Object :=
  .mk [("v", .value (.integer number))]

/-- Each item holds its elements by itself. -/
def evenItems : Object :=
  .mk [("items", .relation [.mk [("xs", .relation [numbered 1])],
    .mk [("xs", .relation [numbered 2, numbered 3])]])]

/-- The second item holds its elements in another object. -/
def unevenItems : Object :=
  .mk [("items", .relation [.mk [("xs", .relation [numbered 1])],
    .mk [("ys", .relation [.mk [("xs", .relation [numbered 2])]])]])]

theorem renderLines_evenItems :
    Engine.renderLines {} itemsLoop "root" evenItems =
      Engine.renderLinesAfresh {} itemsLoop "root" evenItems := by
  have compiled : itemsLoop.Compiled := ⟨_, _, _, ofLines?_itemsLoop⟩
  have uniform : evenItems.Uniform "root" := by decide
  rcases renderLines_eq_renderLinesAfresh {} itemsLoop "root" evenItems with ⟨same, consistent⟩
  exact same (consistent compiled uniform)

/-- The route that was found below the first item is taken from the second one, where it leads
nowhere, although another route would be found there. -/
theorem renderLines_ne_renderLinesAfresh :
    Template.ofLines? .standard ["{$items}", "{x.v}", "{items$}"] = .ok itemsLoop ∧
    Engine.renderLines {} itemsLoop "root" unevenItems =
      .error ⟨.missingAttribute "xs", some ⟨itemsLoop.source, ⟨10, 11⟩⟩⟩ ∧
    Engine.renderLinesAfresh {} itemsLoop "root" unevenItems = .ok ["1", "2"] := by
  refine ⟨ofLines?_itemsLoop, ?_, ?_⟩
  · rw [Engine.renderLines, Template.expandLines, Resolver.remembering_eq_insertionSort]
    decide +kernel
  · decide +kernel

end GraphTemplate
