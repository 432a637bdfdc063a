import GraphTemplate.Template.Token

/-!
# Template bodies

The content of a template as it is expanded: lines of text, lines with placeholders, and loops
around a body of their own.
-/

namespace GraphTemplate

/-- A path of names to be replaced by a text. -/
structure Placeholder where
  root : Ident
  path : List Ident
  span : Span
deriving DecidableEq, Repr

inductive Part where
  | text (content : String)
  | placeholder (content : Placeholder)
deriving DecidableEq, Repr

structure Line where
  parts : List Part
  span : Span
deriving DecidableEq, Repr

namespace Line

def placeholders (line : Line) : List Placeholder :=
  line.parts.filterMap fun part =>
    match part with
    | .placeholder content => some content
    | .text _ => none

/-- The first names of the placeholders in order. -/
def roots (line : Line) : List String :=
  line.placeholders.map fun placeholder => placeholder.root.name

end Line

/-- A sequence of lines and loops. -/
inductive Body where
  | nil
  | text (content : String) (span : Span) (rest : Body)
  | line (content : Line) (rest : Body)
  /-- A loop over a relation that binds a name to each of its elements. -/
  | loop (relation : Ident) (element : String) (inner : Body) (rest : Body)
deriving DecidableEq, Repr

namespace Body

/-- The statements of the first body in reverse order, before those of the second. -/
def reverseOnto : Body → Body → Body
  | nil, done => done
  | text content span rest, done => rest.reverseOnto (text content span done)
  | line content rest, done => rest.reverseOnto (line content done)
  | loop relation element inner rest, done =>
      rest.reverseOnto (loop relation element inner done)

/-- The statements in reverse order; the bodies of loops stay as they are. -/
def reverse (body : Body) : Body :=
  body.reverseOnto nil

end Body

end GraphTemplate
