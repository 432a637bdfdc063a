import GraphTemplate.Text.Span

/-!
# Lines

A text is the lines it consists of one after the other.  Each line but the last ends with a newline
that belongs to it; the last may lack one.
-/

namespace GraphTemplate

namespace Text

/-- The lines of a text, each with its newline. -/
def lines : List Char → List (List Char)
  | [] => []
  | c :: rest =>
      if c = '\n' then [c] :: lines rest
      else match lines rest with
        | [] => [[c]]
        | line :: more => (c :: line) :: more

def withoutNewline (line : List Char) : List Char :=
  if line.getLast? = some '\n' then line.dropLast else line

theorem flatten_lines (text : List Char) : (lines text).flatten = text := by
  induction text with
  | nil => rfl
  | cons c rest ih =>
      unfold lines
      split
      · simp [ih]
      · split
        · rename_i none
          rw [none] at ih
          simp [← ih]
        · rename_i line more some
          rw [some] at ih
          simp [← ih]

end Text

end GraphTemplate
