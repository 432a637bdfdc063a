/-!
# Delimiters

The texts that mark a tag in a template: one on its left, one on its right, and the marker that
makes it the beginning or the end of a loop.  None of them is empty.
-/

namespace GraphTemplate

/-- The texts that mark tags. -/
structure Delimiters where
  left : List Char
  right : List Char
  marker : List Char
  left_ne_nil : left ≠ []
  right_ne_nil : right ≠ []
  marker_ne_nil : marker ≠ []
deriving DecidableEq

namespace Delimiters

/-- Braces around a tag and a dollar sign as loop marker. -/
def standard : Delimiters where
  left := ['\x7b']
  right := ['\x7d']
  marker := ['$']
  left_ne_nil := by decide
  right_ne_nil := by decide
  marker_ne_nil := by decide

/-- The delimiters with the given texts, if none of them is empty. -/
def ofTexts? (left right marker : List Char) : Option Delimiters :=
  if valid : left ≠ [] ∧ right ≠ [] ∧ marker ≠ [] then
    some ⟨left, right, marker, valid.1, valid.2.1, valid.2.2⟩
  else
    none

/-- The standard delimiters with what is given in their place: a pair of texts around a tag, a loop
marker.  An empty text is refused. -/
def custom? (around : Option (String × String)) (marker : Option String) : Option Delimiters :=
  ofTexts?
    ((around.map fun pair => pair.1.toList).getD standard.left)
    ((around.map fun pair => pair.2.toList).getD standard.right)
    ((marker.map String.toList).getD standard.marker)

end Delimiters

end GraphTemplate
