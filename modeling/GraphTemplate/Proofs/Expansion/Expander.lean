import GraphTemplate.Expansion
import GraphTemplate.Proofs.Scope.Views

/-!
# An expansion that changes a state

The expansion of a template is carried out here by tasks on one state: the scope on which bindings
are pushed and from which they are popped, the resolutions found so far, and the text emitted so
far.  A resolution keeps its chain of names as a plain list, so that a task has to check what a
route has by its form: that the chain is not empty and that its first name is bound.  Where such a
check fails, where the root would be popped, and where a line is substituted although it has an
unbound relation, the task slips instead of failing with a fault.

A task also writes down what happens: every stage of the state that is reached, what is resolved,
when a line is substituted, and from which stage to which a call returned.

Nothing bounds how long lines are taken up again, so that a task may have no end.
-/

namespace GraphTemplate

/-- What a name stands for where it is used. -/
inductive Resolution where
  | bound
  | relation (chain : List String)
  | attribute (chain : List String)

namespace Resolution

/-- The names that lead to what an unbound name stands for. -/
def chain? : Resolution → Option (List String)
  | .bound => none
  | .relation chain => some chain
  | .attribute chain => some chain

/-- A chain has at least two names, and the first of them is bound. -/
def LedBy (isBound : String → Prop) (resolution : Resolution) : Prop :=
  ∀ chain, resolution.chain? = some chain →
    2 ≤ chain.length ∧ ∃ head, chain.head? = some head ∧ isBound head

end Resolution

def Finding.route : Finding → Route
  | .relation route => route
  | .attribute route => route

def Finding.resolution : Finding → Resolution
  | .relation route => .relation route.names
  | .attribute route => .attribute route.names

/-- The state of an expansion. -/
structure Stage where
  scope : Scope
  resolved : List (Question × Resolution)
  output : List String

namespace Stage

/-- What an unbound name stands for, by an earlier resolution if there is one. -/
def discovery (stage : Stage) (name : String) : Except Fault Resolution :=
  match stage.resolved.lookup (stage.scope.question name) with
  | some resolution => .ok resolution
  | none => (stage.scope.discover name).map Finding.resolution

def resolution (stage : Stage) (name : String) : Except Fault Resolution :=
  match stage.scope.lookup? name with
  | some _ => .ok .bound
  | none => stage.discovery name

/-- The binding of the root is still there, and every chain that is kept begins with a name that
belongs to its question. -/
structure Sound (root : Binding) (stage : Stage) : Prop where
  rooted : stage.scope.outermost = root
  led : ∀ entry ∈ stage.resolved, entry.2.LedBy (· ∈ entry.1.bound)

end Stage

inductive Call where
  | body
  | loop
  | lines
  | line

/-- What is written down in the course of an expansion. -/
inductive Event where
  | reached (stage : Stage)
  | discovered (stage : Stage) (name : String) (resolution : Resolution)
  | substituting (stage : Stage) (line : Line)
  | returned (call : Call) (before after : Stage)

/-- What happens as it should.  A discovered chain begins with a name that is bound then.  A line is
substituted when none of its names stands for the elements of an unbound relation.  A call returns
with the scope as it found it, and has only added to the output. -/
def Event.Proper (root : Binding) : Event → Prop
  | reached stage => stage.Sound root
  | discovered stage _ resolution =>
      resolution.LedBy fun name => (stage.scope.lookup? name).isSome
  | substituting stage line =>
      ∀ name ∈ line.roots, ∀ chain, stage.resolution name ≠ .ok (.relation chain)
  | returned _ before after => after.scope = before.scope ∧ before.output <+: after.output

/-- What no expansion should come to. -/
inductive Slip where
  | poppedRoot
  | emptyChain
  | unboundOwner (name : String)
  | unboundRelation (name : String)

/-- Why a task stops early. -/
inductive Halt (φ : Type) where
  | fault (fault : φ)
  | slip (slip : Slip)

def Halt.map {φ ψ : Type} (f : φ → ψ) : Halt φ → Halt ψ
  | fault reason => fault (f reason)
  | slip reason => slip reason

/-- The stage that is reached and what happened, the latest first. -/
structure Expander where
  stage : Stage
  history : List Event

/-- At the beginning only the root is bound. -/
def Expander.start (name : String) (root : Object) : Expander :=
  let stage : Stage := ⟨Scope.root name root, [], []⟩
  ⟨stage, [.reached stage]⟩

/-- A task of an expansion. -/
abbrev Expanding (φ α : Type) := ExceptT (Halt φ) (StateT Expander Option) α

namespace Expanding

variable {φ α : Type}

def slip (reason : Slip) : Expanding φ α :=
  throw (.slip reason)

def ofExcept : Except φ α → Expanding φ α
  | .ok value => pure value
  | .error fault => throw (.fault fault)

def locate (span : Span) (task : Expanding Fault α) : Expanding LocatedFault α :=
  task.adapt (Halt.map fun fault => ⟨fault, span⟩)

def stage : Expanding φ Stage :=
  return (← get).stage

def note (event : Event) : Expanding φ Unit :=
  modify fun expander => { expander with history := event :: expander.history }

/-- Goes on to another stage, which is written down. -/
def proceed (next : Stage) : Expanding φ Unit :=
  modify fun expander => ⟨next, .reached next :: expander.history⟩

def say (content : String) : Expanding φ Unit := do
  let stage ← stage
  proceed { stage with output := stage.output ++ [content] }

def push (name : String) (object : Object) : Expanding φ Unit := do
  let stage ← stage
  proceed { stage with scope := stage.scope.bind name object }

def pop : Expanding φ Unit := do
  let stage ← stage
  match stage.scope.unbind? with
  | some scope => proceed { stage with scope := scope }
  | none => slip .poppedRoot

/-- Writes down that a call returns which began at a stage. -/
def returned (call : Call) (before : Stage) : Expanding φ Unit := do
  note (.returned call before (← stage))

/-- What an unbound name stands for.  It is kept for the next time. -/
def discover (name : String) : Expanding Fault Resolution := do
  let stage ← stage
  let question := stage.scope.question name
  let resolution ← ofExcept (stage.discovery name)
  if (stage.resolved.lookup question).isNone then
    proceed { stage with resolved := (question, resolution) :: stage.resolved }
  note (.discovered stage name resolution)
  return resolution

def resolve (name : String) : Expanding Fault Resolution := do
  let stage ← stage
  match stage.scope.lookup? name with
  | some _ => return .bound
  | none => discover name

/-- The elements at the end of a chain. -/
def elements : List String → Expanding Fault (List Object)
  | [] => slip .emptyChain
  | owner :: steps => do
      let stage ← stage
      match stage.scope.lookup? owner with
      | some object => ofExcept (allOrError ((object.reach steps).map Node.element))
      | none => slip (.unboundOwner owner)

/-- Adds the first name of a placeholder with its chain if the name stands for the elements of an
unbound relation and is not there yet. -/
def addUnbound (unbound : List (Ident × List String)) (placeholder : Placeholder) :
    Expanding LocatedFault (List (Ident × List String)) := do
  if placeholder.root.name ∈ unbound.map fun entry => entry.1.name then
    return unbound
  match ← locate placeholder.root.span (resolve placeholder.root.name) with
  | .relation chain => return unbound ++ [(placeholder.root, chain)]
  | _ => return unbound

/-- The names of a line that stand for the elements of unbound relations. -/
def unboundRelations (line : Line) : Expanding LocatedFault (List (Ident × List String)) :=
  line.placeholders.foldlM addUnbound []

/-- The text of a placeholder along some names from what is bound to a name. -/
def textFrom (placeholder : Placeholder) (owner : String) (steps : List String) :
    Expanding LocatedFault String := do
  let stage ← stage
  match stage.scope.lookup? owner with
  | some object => ofExcept (Anchor.text ⟨placeholder, object, steps⟩)
  | none =>
      let name := placeholder.root.name
      ofExcept (.error ⟨.unresolvedName name (plural name), placeholder.span⟩)

def placeholderText (placeholder : Placeholder) : Expanding LocatedFault String := do
  match ← locate placeholder.span (resolve placeholder.root.name) with
  | .bound => textFrom placeholder placeholder.root.name []
  | .attribute [] => textFrom placeholder placeholder.root.name []
  | .attribute (owner :: steps) => textFrom placeholder owner steps
  | .relation _ => slip (.unboundRelation placeholder.root.name)

def partText : Part → Expanding LocatedFault String
  | .text content => return content
  | .placeholder placeholder => placeholderText placeholder

/-- The text of a line. -/
def substitute (line : Line) : Expanding LocatedFault String := do
  note (.substituting (← stage) line)
  return String.join (← line.parts.mapM partText)

/-- The first of the names with the shortest chain. -/
def shortest? (unbound : List (Ident × List String)) : Option (Ident × List String) :=
  unbound.foldl
    (fun best? entry =>
      match best? with
      | none => some entry
      | some best => if entry.2.length < best.2.length then some entry else some best)
    none

def goesDeeper (chain : List String) (isEmpty : Bool) (line : Line) :
    Expanding LocatedFault Bool :=
  tryCatch
    (do
      let unbound ← unboundRelations line
      return unbound.any fun entry =>
        decide (chain.length < entry.2.length) && chain.isPrefixOf entry.2)
    fun halt =>
      match halt with
      | .fault ⟨.unresolvedName _ _, _⟩ => return isEmpty
      | halt => throw halt

def countDeeper (chain : List String) (isEmpty : Bool) : List Line → Expanding LocatedFault Nat
  | [] => return 0
  | line :: rest => do
      if ← goesDeeper chain isEmpty line then
        return (← countDeeper chain isEmpty rest) + 1
      else
        return 0

def called (call : Call) (task : Expanding φ Unit) : Expanding φ Unit := do
  let before ← stage
  task
  returned call before

def loopElements (relation : Ident) (element : String) : Expanding LocatedFault (List Object) := do
  let stage ← stage
  match stage.scope.relation? relation.name with
  | some elements => return elements
  | none => locate relation.span do
      match ← discover element with
      | .relation chain => elements chain
      | _ => ofExcept (.error (.unresolvedName element (plural element)))

/-- Performs the task that expands the body of a loop once for each element. -/
def performLoop (relation : Ident) (element : String) (inner : Expanding LocatedFault Unit) :
    Expanding LocatedFault Unit :=
  called .loop do
    let elements ← loopElements relation element
    elements.forM fun object => do
      push element object
      inner
      pop

end Expanding

open Expanding

/-- Consecutive lines. -/
abbrev Run := List Line

mutual

def Run.perform (separator : String) (run : Run) : Expanding LocatedFault Unit := do
  let before ← stage
  match run with
  | [] => returned .lines before
  | line :: rest => do
      let consumed ← line |>.performFirst separator rest
      let behind : Run := (line :: rest).drop consumed
      behind |>.perform separator
      returned .lines before
partial_fixpoint

/-- Expands the first line, with the lines behind it that are repeated together with it, and gives
the number of these lines. -/
def Line.performFirst (separator : String) (line : Line) (rest : Run) :
    Expanding LocatedFault Nat := do
  let before ← stage
  let unbound ← unboundRelations line
  match shortest? unbound with
  | none => do
      say (← substitute line)
      returned .line before
      return 1
  | some (driver, chain) => do
      let elements ← locate driver.span (elements chain)
      let count ← countDeeper chain elements.isEmpty rest
      let group : Run := line :: rest.take count
      elements.zipIdx.forM fun (element, index) => do
        if 0 < index ∧ 0 < count then
          say separator
        push driver.name element
        group |>.perform separator
        pop
      returned .line before
      return count + 1
partial_fixpoint

end

namespace Body

/-- Expands a body that comes after lines with placeholders that are still to be expanded. -/
def performAfter (separator : String) (run : Run) : Body → Expanding LocatedFault Unit
  | nil => run.perform separator
  | line content rest => performAfter separator (run ++ [content]) rest
  | text content _ rest => do
      run.perform separator
      say content
      performAfter separator [] rest
  | loop relation element inner rest => do
      run.perform separator
      performLoop relation element (called .body (performAfter separator [] inner))
      performAfter separator [] rest

def perform (separator : String) (body : Body) : Expanding LocatedFault Unit :=
  called .body (body.performAfter separator [])

end Body

/-- What a template emits for a root object under a name when it is expanded by tasks, and what
happened. -/
def Template.perform (separator : String) (template : Template) (name : String) (root : Object) :
    Option (Except (Halt Error) (List String) × List Event) := do
  let (result, after) ← (template.body.perform separator).run.run (.start name root)
  let emitted := result.map fun _ => after.stage.output
  return (emitted.mapError (Halt.map (Error.ofLocated template.source)), after.history)

end GraphTemplate
