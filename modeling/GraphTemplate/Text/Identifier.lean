import GraphTemplate.Text.IdentifierTable

/-!
# Identifiers

An identifier is a start character followed by any number of part characters.  Every start
character is a part character, so an identifier read as far as it goes ends where no part
character follows.
-/

namespace GraphTemplate

namespace Text

def inRanges (ranges : List (Nat × Nat)) (code : Nat) : Bool :=
  ranges.any fun range => range.1 ≤ code && code ≤ range.2

def isXidStart (c : Char) : Bool :=
  if c.val < 128 then c.isAlpha else inRanges startRanges c.toNat

/-- The character may begin an identifier: an underscore or a character with `XID_Start`. -/
def isIdentStart (c : Char) : Bool :=
  c == '_' || isXidStart c

/-- The character may stand inside an identifier: it has the property `XID_Continue`. -/
def isIdentPart (c : Char) : Bool :=
  isIdentStart c ||
    if c.val < 128 then c.isDigit else inRanges extraRanges c.toNat

theorem isIdentPart_of_isIdentStart {c : Char} (start : isIdentStart c) : isIdentPart c := by
  simp [isIdentPart, start]

def IsIdentifier : List Char → Prop
  | [] => False
  | c :: rest => isIdentStart c ∧ ∀ d ∈ rest, isIdentPart d

/-- Reads the longest identifier at the beginning of a text, and gives what follows it. -/
def readIdentifier : List Char → Option (List Char × List Char)
  | [] => none
  | c :: rest =>
      if isIdentStart c then
        some (c :: rest.takeWhile isIdentPart, rest.dropWhile isIdentPart)
      else
        none

/-- What is read is an identifier, nothing of the text is lost, and no part character follows. -/
theorem readIdentifier_eq_some {text name rest : List Char}
    (read : readIdentifier text = some (name, rest)) :
    IsIdentifier name ∧ text = name ++ rest ∧ ∀ d ∈ rest.head?, ¬ isIdentPart d := by
  cases text with
  | nil => simp [readIdentifier] at read
  | cons c tail =>
      simp only [readIdentifier] at read
      split at read
      · rename_i start
        cases read
        refine ⟨⟨start, fun d member => ?_⟩, by simp, fun d member => ?_⟩
        · exact List.all_eq_true.mp List.all_takeWhile d member
        · have := List.head?_dropWhile_not isIdentPart tail
          rw [Option.mem_def] at member
          rw [member] at this
          simpa using this
      · cases read

/-- An identifier before a character that is no part character is read whole. -/
theorem readIdentifier_append {name : List Char} (identifier : IsIdentifier name)
    {rest : List Char} (ends : ∀ d ∈ rest.head?, ¬ isIdentPart d) :
    readIdentifier (name ++ rest) = some (name, rest) := by
  cases name with
  | nil => exact identifier.elim
  | cons c tail =>
      obtain ⟨start, parts⟩ := identifier
      have noMore : rest.takeWhile isIdentPart = [] ∧ rest.dropWhile isIdentPart = rest := by
        cases rest with
        | nil => simp
        | cons d more =>
            have := ends d (by simp)
            simp [this]
      simp [readIdentifier, start, List.takeWhile_append_of_pos parts,
        List.dropWhile_append_of_pos parts, noMore]

theorem readIdentifier_length_lt {text name rest : List Char}
    (read : readIdentifier text = some (name, rest)) : rest.length < text.length := by
  obtain ⟨identifier, split, _⟩ := readIdentifier_eq_some read
  cases name with
  | nil => exact identifier.elim
  | cons c tail =>
      rw [split, List.length_append, List.length_cons]
      omega

end Text

end GraphTemplate
