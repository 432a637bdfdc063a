import GraphTemplate.Engine
import GraphTemplate.Proofs.Expansion.Lockstep
import GraphTemplate.Proofs.Uniformity

/-!
# Inquiries of an expansion

Every time a resolver is asked during an expansion, the scope, the name and the answer are written
down.  This changes nothing about the expansion.  Each answer was discovered for one of the inquiries
of the expansion that put the same question, and all scopes bind objects of the graph only.
-/

namespace GraphTemplate

/-- What a name stands for was asked in a scope, and the answer. -/
structure Inquiry where
  scope : Scope
  name : String
  answer : Except Fault Finding

namespace Inquiry

def question (inquiry : Inquiry) : Question :=
  inquiry.scope.question inquiry.name

/-- What is discovered afresh. -/
def discovery (inquiry : Inquiry) : Except Fault Finding :=
  inquiry.scope.discover inquiry.name

end Inquiry

/-- Answers from memory like `Resolver.remembering` and writes down every inquiry. -/
def Resolver.observing : Resolver (Memory × List Inquiry) where
  find scope name := ExceptT.mk fun state =>
    let outcome := (Resolver.remembering.find scope name).run.run state.1
    (outcome.1, (outcome.2, ⟨scope, name, outcome.1⟩ :: state.2))

theorem Resolver.run_observing (scope : Scope) (name : String) (memory : Memory)
    (log : List Inquiry) :
    (observing.find scope name).run.run (memory, log) =
      let outcome := (remembering.find scope name).run.run memory
      (outcome.1, (outcome.2, ⟨scope, name, outcome.1⟩ :: log)) :=
  rfl

/-- All inquiries of an expansion, the latest first. -/
def Engine.inquiries (engine : Engine) (template : Template) (name : String) (root : Object) :
    List Inquiry :=
  let expansion := template.body.expand Resolver.observing engine.separator (Scope.root name root)
  (expansion.run.run ([], [])).2.2

/-- Everything that is remembered and every answer was discovered for an inquiry with the same
question, and the scopes of all inquiries fit. -/
structure Accounted (rootName : String) (root : Object) (memory : Memory) (log : List Inquiry) :
    Prop where
  fits : ∀ inquiry ∈ log, inquiry.scope.Fits rootName root
  remembered : ∀ entry ∈ memory, ∃ origin ∈ log, origin.question = entry.1 ∧
    origin.discovery = .ok entry.2
  answered : ∀ inquiry ∈ log, ∀ finding, inquiry.answer = .ok finding →
    ∃ origin ∈ log, origin.question = inquiry.question ∧ origin.discovery = .ok finding

namespace Accounted

variable {rootName : String} {root : Object} {memory : Memory} {log : List Inquiry}

theorem nil : Accounted rootName root [] [] :=
  ⟨fun _ member => (by cases member), fun _ member => (by cases member),
    fun _ member => (by cases member)⟩

/-- One more inquiry, whose answer was discovered for an inquiry before it or for itself. -/
theorem cons {inquiry : Inquiry} {after : Memory} (accounted : Accounted rootName root memory log)
    (fits : inquiry.scope.Fits rootName root)
    (remembered : ∀ entry ∈ after, entry ∈ memory ∨
      inquiry.question = entry.1 ∧ inquiry.discovery = .ok entry.2)
    (answered : ∀ finding, inquiry.answer = .ok finding →
      (inquiry.question, finding) ∈ memory ∨ inquiry.discovery = .ok finding) :
    Accounted rootName root after (inquiry :: log) := by
  constructor
  · exact List.forall_mem_cons.mpr ⟨fits, accounted.fits⟩
  · intro entry member
    rcases remembered entry member with before | ⟨same, found⟩
    · rcases accounted.remembered entry before with ⟨origin, originMem, reveals⟩
      exact ⟨origin, List.mem_cons_of_mem _ originMem, reveals⟩
    · exact ⟨inquiry, List.mem_cons_self, same, found⟩
  · intro other member finding given
    rcases List.mem_cons.mp member with rfl | earlier
    · rcases answered finding given with before | found
      · rcases accounted.remembered _ before with ⟨origin, originMem, reveals⟩
        exact ⟨origin, List.mem_cons_of_mem _ originMem, reveals⟩
      · exact ⟨other, List.mem_cons_self, rfl, found⟩
    · rcases accounted.answered other earlier finding given with ⟨origin, originMem, reveals⟩
      exact ⟨origin, List.mem_cons_of_mem _ originMem, reveals⟩

end Accounted

/-- The finding is a relation whose elements have the name, if it is a relation at all. -/
def Finding.IsFor (name : String) (finding : Finding) : Prop :=
  ∀ route, finding = .relation route → ∃ front, route.steps = front ++ [plural name]

theorem Scope.isFor_of_discover {scope : Scope} {name : String} {finding : Finding}
    (found : scope.discover name = .ok finding) : finding.IsFor name := by
  rintro route rfl
  exact exists_front_of_discover found

/-- An expansion with and without observation. -/
def Lockstep.observed (rootName : String) (root : Object) :
    Lockstep (Memory × List Inquiry) Memory where
  left := Resolver.observing
  right := Resolver.remembering
  states state memory := state.1 = memory ∧ Accounted rootName root state.1 state.2
  faults := Eq
  spans := Eq
  objects := Eq
  scopes scope other := scope = other ∧ scope.Fits rootName root
  answered _ name finding := finding.IsFor name
  faults_refl _ := rfl
  category_eq _ _ same := congrArg Fault.category same
  likeness := Object.Likeness.eq
  bindings := by
    rintro scope _ ⟨rfl, _⟩
    exact List.forall₂_same.mpr fun _ _ => ⟨rfl, rfl⟩
  find := by
    rintro scope _ name ⟨rfl, fits⟩ ⟨memory, log⟩ _ ⟨rfl, accounted⟩
    rw [Resolver.run_observing]
    rcases known : memory.lookup (scope.question name) with _ | finding
    · rcases found : scope.discover name with fault | finding
      · rw [Resolver.find_failed known found]
        refine ⟨.error rfl, rfl, accounted.cons fits (fun _ => Or.inl) fun _ given => ?_⟩
        cases given
      · rw [Resolver.find_discovered known found]
        refine ⟨.ok ⟨rfl, Scope.isFor_of_discover found⟩, rfl, accounted.cons fits ?_ ?_⟩
        · intro entry member
          rcases List.mem_cons.mp member with rfl | before
          · exact Or.inr ⟨rfl, found⟩
          · exact Or.inl before
        · rintro _ given
          cases given
          exact Or.inr found
    · have before := Memory.mem_of_lookup known
      rw [Resolver.find_remembered known]
      refine ⟨.ok ⟨rfl, ?_⟩, rfl, accounted.cons fits (fun _ => Or.inl) fun _ given => ?_⟩
      · rcases accounted.remembered _ before with ⟨origin, _, same, found⟩
        have names : origin.name = name := congrArg Question.name same
        exact names ▸ Scope.isFor_of_discover found
      · cases given
        exact Or.inl before

theorem Lockstep.persists_observed (rootName : String) (root : Object) :
    (observed rootName root).Persists fun relation name => relation = plural name where
  found := by
    rintro scope _ name route elements element _ ⟨rfl, fits⟩ isFor walked member rfl
    rcases isFor route rfl with ⟨front, steps⟩
    exact ⟨rfl, fits.of_elements steps walked member⟩
  exposed := by
    rintro scope _ _ name elements element _ ⟨rfl, fits⟩ rfl exposed member rfl
    exact ⟨rfl, fits.of_relation? exposed member⟩

namespace Engine

variable (engine : Engine) {template : Template} (name : String) (root : Object)

theorem inStep_observed (compiled : template.Compiled) :
    InStep (Lockstep.observed name root).states (LocatedFault.Alike Eq Eq) Eq
      (template.body.expand Resolver.observing engine.separator (Scope.root name root))
      (template.body.expand Resolver.remembering engine.separator (Scope.root name root)) :=
  (Lockstep.observed name root).expandAfter (Lockstep.persists_observed name root) engine.separator
    ⟨rfl, Scope.fits_root⟩ .nil (Body.Alike.refl (fun _ => rfl) template.body)
    compiled.bindsSingulars

/-- Observation does not change what a template makes. -/
theorem renderLines_observed (compiled : template.Compiled) :
    let expansion := template.body.expand Resolver.observing engine.separator (Scope.root name root)
    (expansion.run.run ([], [])).1.mapError (Error.ofLocated template.source) =
      engine.renderLines template name root := by
  have same := (engine.inStep_observed name root compiled ([], []) [] ⟨rfl, .nil⟩).1.eq_of_alike
  exact congrArg (Except.mapError (Error.ofLocated template.source)) same

theorem accounted_inquiries (compiled : template.Compiled) :
    ∃ memory, Accounted name root memory (engine.inquiries template name root) :=
  ⟨_, (engine.inStep_observed name root compiled ([], []) [] ⟨rfl, .nil⟩).2.2⟩

end Engine

end GraphTemplate
