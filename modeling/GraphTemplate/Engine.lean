import GraphTemplate.Datum
import GraphTemplate.Expansion

/-!
# Engines

An engine holds what templates have in common: the delimiters by which they are compiled, the
separator that stands between the repetitions of a group when they are expanded, and compiled
templates under names.

The root of an expansion is an object, or typed data from which `Object.ofDatum?` makes one.
-/

namespace GraphTemplate

/-- The object that typed data makes, if it is taken in as a map. -/
def Object.ofDatum? (datum : Datum) : Except Fault Object := do
  Object.ofValue? (← datum.toValue?)

/-- Delimiters, a separator, and templates by name. -/
structure Engine where
  delimiters : Delimiters := .standard
  separator : String := "\n"
  templates : Fields Template := []
deriving DecidableEq

namespace Engine

/-- The engine with other delimiters for the templates that are still to be compiled. -/
def withDelimiters (engine : Engine) (delimiters : Delimiters) : Engine :=
  { engine with delimiters := delimiters }

def withSeparator (engine : Engine) (separator : String) : Engine :=
  { engine with separator := separator }

def compile (engine : Engine) (source : String) : Except Error Template :=
  Template.ofText? engine.delimiters source

def compileLines (engine : Engine) (lines : List String) : Except Error Template :=
  Template.ofLines? engine.delimiters lines

/-- Compiles a text and keeps the template under a name, in place of one kept there before. -/
def addTemplate (engine : Engine) (name source : String) : Except Error Engine := do
  let template ← engine.compile source
  return { engine with templates := engine.templates.insert name template }

def template? (engine : Engine) (name : String) : Option Template :=
  engine.templates.get? name

/-- The text that a template makes for a root object under a name. -/
def render (engine : Engine) (template : Template) (name : String) (root : Object) :
    Except Error String :=
  template.expand engine.separator name root

/-- The pieces of text that a template emits for a root object under a name. -/
def renderLines (engine : Engine) (template : Template) (name : String) (root : Object) :
    Except Error (List String) :=
  template.expandLines engine.separator name root

def renderFrom (engine : Engine) (template : Template) (name : String) (root : Datum) :
    Except Error String := do
  let object ← (Object.ofDatum? root).mapError Error.ofFault
  engine.render template name object

/-- A template that was added is found under its name. -/
theorem template?_of_addTemplate {engine after : Engine} {name source : String}
    (added : engine.addTemplate name source = .ok after) :
    ∃ template, engine.compile source = .ok template ∧ after.template? name = some template := by
  unfold addTemplate at added
  cases compiled : engine.compile source with
  | error error => simp [compiled, bind, Except.bind] at added
  | ok template =>
      simp only [compiled, bind, Except.bind, pure, Except.pure, Except.ok.injEq] at added
      subst added
      exact ⟨template, rfl, Fields.get?_insert_self engine.templates name template⟩

end Engine

end GraphTemplate
