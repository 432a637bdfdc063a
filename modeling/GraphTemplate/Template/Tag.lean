import GraphTemplate.Template.Delimiters
import GraphTemplate.Text.Identifier

/-!
# Tags

A tag stands between the delimiters of a template.  It is a placeholder, a path of identifiers
separated by points, or one end of a loop: the loop marker stands before the name where the loop is
opened and behind it where it is closed.

`Tag.spell` writes a tag and `Tag.read` reads one.  What does not read as a whole tag is no tag.
-/

namespace GraphTemplate

inductive Tag where
  | placeholder (root : String) (path : List String)
  | opening (name : String)
  | closing (name : String)
deriving DecidableEq, Repr

namespace Tag

/-- The written form of the further names of a path: each behind a point. -/
def spellPath (path : List String) : List Char :=
  path.flatMap fun name => '.' :: name.toList

def spell (d : Delimiters) : Tag → List Char
  | placeholder root path => d.left ++ root.toList ++ spellPath path ++ d.right
  | opening name => d.left ++ d.marker ++ name.toList ++ d.right
  | closing name => d.left ++ name.toList ++ d.marker ++ d.right

/-- What follows a given text at the beginning of another. -/
def eat : List Char → List Char → Option (List Char)
  | [], text => some text
  | _ :: _, [] => none
  | c :: pattern, d :: text => if c = d then eat pattern text else none

theorem eat_eq_some_iff {pattern text rest : List Char} :
    eat pattern text = some rest ↔ text = pattern ++ rest := by
  fun_induction eat pattern text with
  | case1 text => simp [eq_comm]
  | case2 => simp
  | case3 pattern c text ih => simp [ih]
  | case4 c pattern d text different => simp [Ne.symm different]

/-- An identifier as a name, and what follows it. -/
def readName (text : List Char) : Option (String × List Char) :=
  (Text.readIdentifier text).map fun read => (String.ofList read.1, read.2)

theorem readName_eq_some {text rest : List Char} {name : String}
    (read : readName text = some (name, rest)) :
    Text.IsIdentifier name.toList ∧ text = name.toList ++ rest ∧
      ∀ d ∈ rest.head?, ¬ Text.isIdentPart d := by
  obtain ⟨⟨chars, more⟩, readChars, same⟩ := Option.map_eq_some_iff.mp read
  cases same
  simpa using Text.readIdentifier_eq_some readChars

theorem readName_length_lt {text rest : List Char} {name : String}
    (read : readName text = some (name, rest)) : rest.length < text.length := by
  obtain ⟨⟨chars, more⟩, readChars, same⟩ := Option.map_eq_some_iff.mp read
  cases same
  exact Text.readIdentifier_length_lt readChars

/-- The further names of a path, as many as there are points, and what follows them.  A point
without an identifier behind it spoils the path. -/
def readPath (text : List Char) : Option (List String × List Char) :=
  match text with
  | '.' :: after =>
      match _read : readName after with
      | none => none
      | some (name, rest) => (readPath rest).map fun more => (name :: more.1, more.2)
  | _ => some ([], text)
termination_by text.length
decreasing_by
  have := readName_length_lt _read
  simp only [List.length_cons]
  omega

/-- Reads the tag that begins a text, and gives what follows it.  Once a loop marker has been seen
the tag can only be the end of a loop that the marker makes it. -/
def read (d : Delimiters) (text : List Char) : Option (Tag × List Char) := do
  let inner ← eat d.left text
  match eat d.marker inner with
  | some after =>
      let (name, rest) ← readName after
      let rest ← eat d.right rest
      return (opening name, rest)
  | none =>
      let (root, rest) ← readName inner
      match eat d.marker rest with
      | some after =>
          let rest ← eat d.right after
          return (closing root, rest)
      | none =>
          let (path, rest) ← readPath rest
          let rest ← eat d.right rest
          return (placeholder root path, rest)

theorem eq_spellPath_append_of_readPath {text rest : List Char} {path : List String}
    (read : readPath text = some (path, rest)) : text = spellPath path ++ rest := by
  fun_induction readPath text generalizing path rest with
  | case1 after noName => simp at read
  | case2 after name middle readFirst ih =>
      obtain ⟨⟨names, last⟩, readMore, same⟩ := Option.map_eq_some_iff.mp read
      cases same
      have split := (readName_eq_some readFirst).2.1
      simp [spellPath, split, ih readMore]
  | case3 text noPoint =>
      cases read
      simp [spellPath]

/-- What is read is the written form of a tag, and nothing of the text is lost. -/
theorem eq_spell_append_of_read {d : Delimiters} {text rest : List Char} {tag : Tag}
    (found : read d text = some (tag, rest)) : text = tag.spell d ++ rest := by
  simp only [read, Option.bind_eq_bind, Option.bind_eq_some_iff, Option.pure_def] at found
  obtain ⟨inner, readLeft, found⟩ := found
  rw [eat_eq_some_iff] at readLeft
  split at found
  · rename_i after readMarker
    rw [eat_eq_some_iff] at readMarker
    simp only [Option.bind_eq_some_iff, eat_eq_some_iff] at found
    obtain ⟨⟨name, afterName⟩, readFirst, last, readRight, found⟩ := found
    cases found
    simp only at readRight
    simp [spell, readLeft, readMarker, (readName_eq_some readFirst).2.1, readRight]
  · simp only [Option.bind_eq_some_iff] at found
    obtain ⟨⟨root, afterRoot⟩, readFirst, found⟩ := found
    have rootSplit := (readName_eq_some readFirst).2.1
    simp only at found
    split at found
    · rename_i after readMarker
      rw [eat_eq_some_iff] at readMarker
      simp only [Option.bind_eq_some_iff, eat_eq_some_iff] at found
      obtain ⟨last, readRight, found⟩ := found
      cases found
      simp [spell, readLeft, rootSplit, readMarker, readRight]
    · simp only [Option.bind_eq_some_iff, eat_eq_some_iff] at found
      obtain ⟨⟨path, afterPath⟩, readMore, last, readRight, found⟩ := found
      cases found
      simp only at readRight
      simp [spell, readLeft, rootSplit, eq_spellPath_append_of_readPath readMore, readRight]

theorem spell_ne_nil (d : Delimiters) (tag : Tag) : tag.spell d ≠ [] := by
  have := d.left_ne_nil
  cases tag <;> simp [spell, this]

theorem length_lt_of_read {d : Delimiters} {text rest : List Char} {tag : Tag}
    (found : read d text = some (tag, rest)) : rest.length < text.length := by
  have := List.length_pos_iff.mpr (spell_ne_nil d tag)
  rw [eq_spell_append_of_read found, List.length_append]
  omega

end Tag

end GraphTemplate
