import GraphTemplate.Error
import GraphTemplate.Relation.Route
import GraphTemplate.Template.Body

/-!
# Compiling templates

A template is read line by line.  Each line is classified by its tags: it is a loop marker, a line
with placeholders, or text.  The markers then nest the lines into the bodies of loops.  The first
line that fits nowhere is reported; if there is none, the innermost loop that stays open.
-/

namespace GraphTemplate

structure Marker where
  opens : Bool
  name : Ident
  span : Span
deriving DecidableEq, Repr

/-- What a line is by its tags. -/
inductive LineClass where
  | text (content : String) (span : Span)
  | line (content : Line)
  | marker (content : Marker)
  /-- A line with several markers, the second of which has the given span. -/
  | crowded (second : Span)
deriving DecidableEq, Repr

/-- A line of a source and the position where it begins. -/
structure SourceLine where
  start : Nat
  text : List Char
deriving DecidableEq, Repr

namespace SourceLine

/-- Places lines one after the other, with a number of bytes between them. -/
def place (gap start : Nat) : List (List Char) → List SourceLine
  | [] => []
  | line :: rest => ⟨start, line⟩ :: place gap (start + Text.byteLength line + gap) rest

def span (line : SourceLine) : Span :=
  Span.ofText line.start line.text

end SourceLine

namespace Lexeme

/-- The loop marker that a piece of a line is. -/
def marker? (d : Delimiters) (lexeme : Lexeme) : Option Marker :=
  let inner := lexeme.span.start + Text.byteLength d.left
  match lexeme.token with
  | .tag (.opening name) =>
      some ⟨true, Ident.place (inner + Text.byteLength d.marker) name, lexeme.span⟩
  | .tag (.closing name) => some ⟨false, Ident.place inner name, lexeme.span⟩
  | _ => none

/-- The part of a line that a piece is.  The loop markers of a line with placeholders are none. -/
def part? (d : Delimiters) (lexeme : Lexeme) : Option Part :=
  match lexeme.token with
  | .raw text => some (.text (String.ofList text))
  | .tag (.placeholder root path) =>
      let first := Ident.place (lexeme.span.start + Text.byteLength d.left) root
      some (.placeholder ⟨first, Ident.placePath first.span.stop path, lexeme.span⟩)
  | .tag _ => none

end Lexeme

namespace LineClass

def ofLine (d : Delimiters) (source : SourceLine) : LineClass :=
  let lexemes := Lexeme.ofLine d source.start source.text
  match lexemes.filterMap (Lexeme.marker? d) with
  | _ :: second :: _ => crowded second.span
  | [only] => marker only
  | [] =>
      let content : Line := ⟨lexemes.filterMap (Lexeme.part? d), source.span⟩
      if content.placeholders.isEmpty then text (String.ofList source.text) source.span
      else line content

end LineClass

/-- A loop that is open: its relation, the name of the elements, the marker that opened it, and the
body before it, last statement first. -/
structure OpenLoop where
  relation : Ident
  element : String
  marker : Span
  before : Body
deriving DecidableEq, Repr

/-- The state of nesting: the innermost body so far, last statement first, and the open loops around
it, innermost first. -/
structure Nesting where
  current : Body
  loops : List OpenLoop
deriving DecidableEq, Repr

namespace Nesting

/-- Nothing read and no loop open. -/
def start : Nesting :=
  ⟨.nil, []⟩

def add (nesting : Nesting) : LineClass → Except LocatedFault Nesting
  | .text content span => .ok { nesting with current := .text content span nesting.current }
  | .line content => .ok { nesting with current := .line content nesting.current }
  | .crowded second => .error ⟨.crowdedLine, second⟩
  | .marker ⟨true, name, span⟩ =>
      match singular? name.name with
      | none => .error ⟨.singularLoop, name.span⟩
      | some element => .ok ⟨.nil, ⟨name, element, span, nesting.current⟩ :: nesting.loops⟩
  | .marker ⟨false, name, span⟩ =>
      match nesting.loops with
      | [] => .error ⟨.strayClose, span⟩
      | innermost :: outer =>
          if innermost.relation.name = name.name then
            let inner := nesting.current.reverse
            .ok ⟨.loop innermost.relation innermost.element inner innermost.before, outer⟩
          else
            .error ⟨.mismatchedClose innermost.relation.name, span⟩

/-- The whole body, unless a loop is still open. -/
def finish (nesting : Nesting) : Except LocatedFault Body :=
  match nesting.loops with
  | [] => .ok nesting.current.reverse
  | innermost :: _ => .error ⟨.unclosedLoop, innermost.marker⟩

end Nesting

/-- The body that classified lines make. -/
def Body.ofLines? (lines : List LineClass) : Except LocatedFault Body := do
  let nesting ← lines.foldlM Nesting.add Nesting.start
  nesting.finish

/-- A compiled template with its source. -/
structure Template where
  source : String
  body : Body
deriving DecidableEq, Repr

namespace Template

/-- Compiles the placed lines of a source. -/
def ofSourceLines? (d : Delimiters) (source : String) (lines : List SourceLine) :
    Except Error Template :=
  match Body.ofLines? (lines.map (LineClass.ofLine d)) with
  | .ok body => .ok ⟨source, body⟩
  | .error located => .error (.ofLocated source located)

/-- Compiles a text.  Each line keeps its newline. -/
def ofText? (d : Delimiters) (source : String) : Except Error Template :=
  ofSourceLines? d source (SourceLine.place 0 0 (Text.lines source.toList))

/-- Compiles a sequence of lines, which are joined with newlines to form the source but do not
contain them. -/
def ofLines? (d : Delimiters) (lines : List String) : Except Error Template :=
  ofSourceLines? d ("\n".intercalate lines) (SourceLine.place 1 0 (lines.map String.toList))

end Template

end GraphTemplate
