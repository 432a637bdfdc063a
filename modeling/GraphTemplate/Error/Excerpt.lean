import GraphTemplate.Text.Lines

/-!
# Excerpts

The annotated excerpt of a source: the line in which a span begins, with its number, and below it a
row of carets under the span followed by a message.  Columns are measured by a width function that
the caller chooses.
-/

namespace GraphTemplate

/-- A position in a source: the number of the line, from zero, the line without its newline, and the
column. -/
structure Spot where
  number : Nat
  line : List Char
  column : Nat
deriving DecidableEq, Repr

namespace Spot

/-- The position of an offset in lines that are separated by newlines. -/
def find? (width : List Char → Nat) (number : Nat) : List (List Char) → Nat → Option Spot
  | [], _ => none
  | line :: rest, offset =>
      if offset ≤ Text.byteLength line then
        some ⟨number, line, width (Text.takeBytes offset line)⟩
      else
        find? width (number + 1) rest (offset - (Text.byteLength line + 1))

/-- The position behind the last line. -/
def behind (width : List Char → Nat) (lines : List (List Char)) : Spot :=
  let last := lines.getLast?.getD []
  ⟨lines.length, last, width last⟩

def ofOffset (width : List Char → Nat) (source : List Char) (offset : Nat) : Spot :=
  let lines := (Text.lines source).map Text.withoutNewline
  (find? width 0 lines offset).getD (behind width lines)

/-- The lines of an excerpt: the line of a position with its number, and below it carets from the
position on with a message behind them. -/
def layout (spot : Spot) (carets : Nat) (message : List Char) : List Char :=
  let number := (toString (spot.number + 1)).toList
  let pad := List.replicate number.length ' '
  "\n ".toList ++ pad ++ " |\n ".toList ++
    number ++ " | ".toList ++ spot.line ++ "\n ".toList ++
    pad ++ " | ".toList ++ List.replicate spot.column ' ' ++ List.replicate carets '^' ++
    ' ' :: message ++ ['\n']

end Spot

/-- The excerpt of a source for a span, with a message behind the carets. -/
def excerpt (width : List Char → Nat) (message source : List Char) (span : Span) : List Char :=
  (Spot.ofOffset width source span.start).layout (max 1 (width (span.slice source))) message

end GraphTemplate
