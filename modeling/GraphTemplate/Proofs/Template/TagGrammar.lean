import GraphTemplate.Template.Compile
import Mathlib.Data.List.Basic

/-!
# The grammar of tags

A tag is read without looking back: once the loop marker or a name has been taken it stays taken.  If
the delimiters can be told apart where a name ends, this loses nothing.  What is read at a position of
a line is then exactly what is written there as a tag, with its names in their places, and no position
begins two tags that end at different places.
-/

namespace GraphTemplate

/-- Where a name may end, the point, the loop marker and the right delimiter are told apart by what
follows: none of them continues a name, and none is the beginning of another. -/
structure Delimiters.Separate (d : Delimiters) : Prop where
  marker_not_prefix : ¬ d.marker <+: d.right
  right_not_prefix : ¬ d.right <+: d.marker
  marker_head : ∀ c ∈ d.marker.head?, ¬ Text.isIdentPart c ∧ c ≠ '.'
  right_head : ∀ c ∈ d.right.head?, ¬ Text.isIdentPart c ∧ c ≠ '.'

theorem Delimiters.separate_standard : standard.Separate where
  marker_not_prefix := by decide
  right_not_prefix := by decide
  marker_head := by
    rintro c ⟨_⟩
    decide
  right_head := by
    rintro c ⟨_⟩
    decide

/-- Names with a point before each, the first point at a position. -/
inductive Ident.Dotted : Nat → List Ident → List Char → Prop where
  | nil (position : Nat) : Dotted position [] []
  | cons {position : Nat} {name : String} {rest : List Ident} {text : List Char}
      (identifier : Text.IsIdentifier name.toList)
      (further : Dotted (position + 1 + Text.byteLength name.toList) rest text) :
      Dotted position (⟨name, Span.ofText (position + 1) name.toList⟩ :: rest)
        ('.' :: name.toList ++ text)

/-- What a text is that is written as a tag from a position on, with its names and their bytes. -/
inductive Tag.Written (d : Delimiters) (position : Nat) : Tag → List Ident → List Char → Prop where
  | opening {name : String} (identifier : Text.IsIdentifier name.toList) :
      Written d position (.opening name)
        [⟨name, Span.ofText (position + Text.byteLength (d.left ++ d.marker)) name.toList⟩]
        (d.left ++ d.marker ++ name.toList ++ d.right)
  | closing {name : String} (identifier : Text.IsIdentifier name.toList) :
      Written d position (.closing name)
        [⟨name, Span.ofText (position + Text.byteLength d.left) name.toList⟩]
        (d.left ++ name.toList ++ d.marker ++ d.right)
  | placeholder {root : String} {path : List Ident} {text : List Char}
      (identifier : Text.IsIdentifier root.toList)
      (dotted : Ident.Dotted (position + Text.byteLength (d.left ++ root.toList)) path text) :
      Written d position (.placeholder root (path.map Ident.name))
        (⟨root, Span.ofText (position + Text.byteLength d.left) root.toList⟩ :: path)
        (d.left ++ root.toList ++ text ++ d.right)

/-- Somewhere from its beginning on, at the given position, a text is written as a tag that ends at
another. -/
def Tag.WrittenTo (d : Delimiters) (text : List Char) (position stop : Nat) (tag : Tag)
    (names : List Ident) : Prop :=
  ∃ written rest, text = written ++ rest ∧ stop = position + Text.byteLength written ∧
    Written d position tag names written

namespace Token

variable {d : Delimiters}

theorem scan_of_read {text rest : List Char} {content : Tag}
    (read : Tag.read d text = some (content, rest)) : scan d text = tag content :: scan d rest := by
  rcases text with _ | ⟨c, later⟩
  · cases Tag.length_lt_of_read read
  · rw [scan]
    split
    · rename_i other otherRest same
      rw [read] at same
      cases same
      rfl
    · rename_i unread
      rw [read] at unread
      cases unread

theorem scan_of_unread {c : Char} {later : List Char} (unread : Tag.read d (c :: later) = none) :
    scan d (c :: later) = consRaw c (scan d later) := by
  rw [scan]
  split
  · rename_i other rest read
    rw [unread] at read
    cases read
  · rfl

end Token

namespace Lexeme

/-- The names on a tag with the bytes they cover, as the loop marker or the placeholder that it makes
has them. -/
def names (d : Delimiters) (lexeme : Lexeme) : List Ident :=
  match lexeme.marker? d, lexeme.part? d with
  | some marker, _ => [marker.name]
  | none, some (.placeholder placeholder) => placeholder.root :: placeholder.path
  | none, _ => []

/-- The tag that is read at the beginning of a text, which is at a position. -/
def tagAt? (d : Delimiters) (position : Nat) (text : List Char) : Option Lexeme :=
  (Tag.read d text).map fun found => ⟨.tag found.1, Span.ofText position (found.1.spell d)⟩

/-- Where a tag is read, the pieces of a line go on with it and behind it. -/
theorem ofLine_of_tagAt? {d : Delimiters} {position : Nat} {text : List Char} {lexeme : Lexeme}
    (found : tagAt? d position text = some lexeme) :
    ∃ rest, ofLine d position text = lexeme :: ofLine d lexeme.span.stop rest := by
  rcases Option.map_eq_some_iff.mp found with ⟨⟨content, rest⟩, read, rfl⟩
  refine ⟨rest, ?_⟩
  rw [ofLine, Token.scan_of_read read]
  rfl

end Lexeme

namespace Tag

variable {d : Delimiters}

def names : Tag → List String
  | placeholder root path => root :: path
  | opening name => [name]
  | closing name => [name]

/-- All names on the tag are identifiers. -/
def IsProper (tag : Tag) : Prop :=
  ∀ name ∈ tag.names, Text.IsIdentifier name.toList

theorem eat_append (pattern text : List Char) : eat pattern (pattern ++ text) = some text :=
  eat_eq_some_iff.mpr rfl

theorem eat_eq_none_iff {pattern text : List Char} :
    eat pattern text = none ↔ ¬ pattern <+: text := by
  rw [← Option.not_isSome_iff_eq_none, Option.isSome_iff_exists]
  simp only [eat_eq_some_iff]
  exact not_congr (exists_congr fun rest => eq_comm)

theorem eat_eq_none_of_head {pattern text : List Char} (nonempty : pattern ≠ [])
    (differs : ∀ c ∈ pattern.head?, c ∉ text.head?) : eat pattern text = none := by
  rcases pattern with _ | ⟨c, pattern⟩
  · exact absurd rfl nonempty
  · rcases text with _ | ⟨first, text⟩
    · rfl
    · have different : c ≠ first := fun same => differs c rfl (by simp [same])
      rw [eat, if_neg different]

theorem readName_append {name : String} (identifier : Text.IsIdentifier name.toList)
    {rest : List Char} (ends : ∀ c ∈ rest.head?, ¬ Text.isIdentPart c) :
    readName (name.toList ++ rest) = some (name, rest) := by
  rw [readName, Text.readIdentifier_append identifier ends]
  simp

theorem readPath_point (after : List Char) : readPath ('.' :: after) =
    (readName after).bind fun found =>
      (readPath found.2).map fun more => (found.1 :: more.1, more.2) := by
  rw [readPath]
  split
  · rename_i noName
    rw [noName]
    rfl
  · rename_i name rest read
    rw [read]
    rfl

/-! ### Everything that is read is written -/

theorem isIdentifier_of_readPath {text rest : List Char} {path : List String}
    (read : readPath text = some (path, rest)) :
    ∀ name ∈ path, Text.IsIdentifier name.toList := by
  fun_induction readPath text generalizing path rest with
  | case1 after noName => cases read
  | case2 after name middle readFirst ih =>
      rcases Option.map_eq_some_iff.mp read with ⟨⟨names, last⟩, readMore, same⟩
      cases same
      rintro other (_ | ⟨_, member⟩)
      · exact (readName_eq_some readFirst).1
      · exact ih readMore other member
  | case3 text noPoint =>
      cases read
      rintro name member
      cases member

theorem isProper_of_read {text rest : List Char} {tag : Tag}
    (found : read d text = some (tag, rest)) : tag.IsProper := by
  simp only [read, Option.bind_eq_bind, Option.bind_eq_some_iff, Option.pure_def] at found
  rcases found with ⟨inner, _, found⟩
  split at found
  · simp only [Option.bind_eq_some_iff] at found
    rcases found with ⟨⟨name, afterName⟩, readFirst, last, _, same⟩
    cases same
    simpa [IsProper, names] using (readName_eq_some readFirst).1
  · simp only [Option.bind_eq_some_iff] at found
    rcases found with ⟨⟨root, afterRoot⟩, readFirst, found⟩
    have first := (readName_eq_some readFirst).1
    simp only at found
    split at found
    · simp only [Option.bind_eq_some_iff] at found
      rcases found with ⟨last, _, same⟩
      cases same
      simpa [IsProper, names] using first
    · simp only [Option.bind_eq_some_iff] at found
      rcases found with ⟨⟨path, afterPath⟩, readMore, last, _, same⟩
      cases same
      rintro name (_ | ⟨_, member⟩)
      · exact first
      · exact isIdentifier_of_readPath readMore name member

/-! ### Everything that is written is read -/

theorem head?_spellPath_append (path : List String) {rest : List Char}
    (ends : ∀ c ∈ rest.head?, ¬ Text.isIdentPart c) :
    ∀ c ∈ (spellPath path ++ rest).head?, ¬ Text.isIdentPart c := by
  rcases path with _ | ⟨name, more⟩
  · exact ends
  · rintro c ⟨_⟩
    decide

theorem readPath_spellPath_append {path : List String} {rest : List Char}
    (identifiers : ∀ name ∈ path, Text.IsIdentifier name.toList)
    (ends : ∀ c ∈ rest.head?, ¬ Text.isIdentPart c ∧ c ≠ '.') :
    readPath (spellPath path ++ rest) = some (path, rest) := by
  induction path with
  | nil =>
      unfold readPath
      split
      · rename_i after same
        have point : '.' ∈ rest.head? := by
          rw [show rest = '.' :: after from same]
          rfl
        exact ((ends '.' point).2 rfl).elim
      · rfl
  | cons name more ih =>
      have first := identifiers name List.mem_cons_self
      have later := ih fun other member => identifiers other (List.mem_cons_of_mem _ member)
      have stops := head?_spellPath_append more fun c member => (ends c member).1
      have split : spellPath (name :: more) ++ rest =
          '.' :: (name.toList ++ (spellPath more ++ rest)) := by
        simp [spellPath]
      rw [split, readPath_point, readName_append first stops, Option.bind_some, later]
      rfl

theorem eat_marker_eq_none_of_identifier (separate : d.Separate) {name : String}
    (identifier : Text.IsIdentifier name.toList) (rest : List Char) :
    eat d.marker (name.toList ++ rest) = none := by
  apply eat_eq_none_of_head d.marker_ne_nil
  intro c member first
  generalize name.toList = chars at identifier first
  rcases chars with _ | ⟨start, more⟩
  · exact identifier
  · cases first
    exact (separate.marker_head c member).1 (Text.isIdentPart_of_isIdentStart identifier.1)

theorem eat_marker_eq_none_of_path (separate : d.Separate) (path : List String)
    (rest : List Char) : eat d.marker (spellPath path ++ (d.right ++ rest)) = none := by
  rcases path with _ | ⟨name, more⟩
  · rw [eat_eq_none_iff]
    intro isPrefix
    have right : d.right <+: d.right ++ rest := List.prefix_append _ _
    rcases List.prefix_or_prefix_of_prefix isPrefix right with before | behind
    · exact separate.marker_not_prefix before
    · exact separate.right_not_prefix behind
  · apply eat_eq_none_of_head d.marker_ne_nil
    rintro c member ⟨_⟩
    exact (separate.marker_head '.' member).2 rfl

theorem read_spell_append (separate : d.Separate) {tag : Tag} (proper : tag.IsProper)
    (rest : List Char) : read d (tag.spell d ++ rest) = some (tag, rest) := by
  have rightEnds : ∀ c ∈ (d.right ++ rest).head?, ¬ Text.isIdentPart c ∧ c ≠ '.' := by
    rw [List.head?_append_of_ne_nil _ d.right_ne_nil]
    exact separate.right_head
  have markerEnds : ∀ c ∈ (d.marker ++ (d.right ++ rest)).head?, ¬ Text.isIdentPart c := by
    rw [List.head?_append_of_ne_nil _ d.marker_ne_nil]
    exact fun c member => (separate.marker_head c member).1
  cases tag with
  | opening name =>
      have identifier := proper name List.mem_cons_self
      have named := readName_append identifier fun c member => (rightEnds c member).1
      simp only [spell, List.append_assoc, read, eat_append, Option.bind_eq_bind, Option.bind_some,
        named]
      rfl
  | closing name =>
      have identifier := proper name List.mem_cons_self
      simp only [spell, List.append_assoc, read, eat_append, Option.bind_eq_bind, Option.bind_some,
        eat_marker_eq_none_of_identifier separate identifier, readName_append identifier markerEnds]
      rfl
  | placeholder root path =>
      have identifier := proper root List.mem_cons_self
      have others : ∀ name ∈ path, Text.IsIdentifier name.toList :=
        fun name member => proper name (List.mem_cons_of_mem _ member)
      have named := readName_append identifier
        (head?_spellPath_append path fun c member => (rightEnds c member).1)
      simp only [spell, List.append_assoc, read, eat_append, Option.bind_eq_bind, Option.bind_some,
        eat_marker_eq_none_of_identifier separate identifier, named,
        eat_marker_eq_none_of_path separate, readPath_spellPath_append others rightEnds]
      rfl

theorem read_eq_some_iff (separate : d.Separate) {text rest : List Char} {tag : Tag} :
    read d text = some (tag, rest) ↔ tag.IsProper ∧ text = tag.spell d ++ rest := by
  constructor
  · exact fun found => ⟨isProper_of_read found, eq_spell_append_of_read found⟩
  · rintro ⟨proper, rfl⟩
    exact read_spell_append separate proper rest

end Tag

/-! ### The written form has its names in their places -/

theorem Ident.dotted_iff {position : Nat} {idents : List Ident} {text : List Char} :
    Dotted position idents text ↔
      (∀ ident ∈ idents, Text.IsIdentifier ident.name.toList) ∧
        idents = placePath position (idents.map Ident.name) ∧
        text = Tag.spellPath (idents.map Ident.name) := by
  constructor
  · intro dotted
    induction dotted with
    | nil position => simp [placePath, Tag.spellPath]
    | cons identifier further ih =>
        rcases ih with ⟨identifiers, placed, spelled⟩
        refine ⟨?_, ?_, ?_⟩
        · exact List.forall_mem_cons.mpr ⟨identifier, identifiers⟩
        · rw [List.map_cons, placePath]
          exact congrArg (_ :: ·) placed
        · rw [spelled]
          simp [Tag.spellPath]
  · rintro ⟨identifiers, placed, rfl⟩
    induction idents generalizing position with
    | nil => exact .nil position
    | cons ident rest ih =>
        rw [List.map_cons, placePath, List.cons.injEq] at placed
        rcases placed with ⟨first, others⟩
        have later := ih (fun other member => identifiers other (List.mem_cons_of_mem _ member)) others
        have dotted := Dotted.cons (identifiers ident List.mem_cons_self) later
        rw [first]
        simpa [Tag.spellPath, place] using dotted

namespace Lexeme

variable {d : Delimiters} {position : Nat}

theorem names_opening (name : String) (span : Span) :
    names d ⟨.tag (.opening name), span⟩ =
      [Ident.place (span.start + Text.byteLength (d.left ++ d.marker)) name] := by
  simp [names, marker?, Nat.add_assoc]

theorem names_placeholder (root : String) (path : List String) (span : Span) :
    names d ⟨.tag (.placeholder root path), span⟩ =
      Ident.place (span.start + Text.byteLength d.left) root ::
        Ident.placePath (span.start + Text.byteLength (d.left ++ root.toList)) path := by
  simp [names, marker?, part?, Ident.place, Span.ofText, Nat.add_assoc]

end Lexeme

theorem Ident.map_name_placePath (start : Nat) (path : List String) :
    (placePath start path).map Ident.name = path := by
  induction path generalizing start with
  | nil => rfl
  | cons name rest ih => exact congrArg (name :: ·) (ih _)

theorem Ident.dotted_placePath (start : Nat) {path : List String}
    (identifiers : ∀ name ∈ path, Text.IsIdentifier name.toList) :
    Dotted start (placePath start path) (Tag.spellPath path) := by
  rw [dotted_iff, map_name_placePath]
  refine ⟨?_, rfl, rfl⟩
  intro ident member
  apply identifiers
  rw [← map_name_placePath start path]
  exact List.mem_map_of_mem member

theorem Tag.written_iff {d : Delimiters} {position : Nat} {tag : Tag} {names : List Ident}
    {written : List Char} :
    Written d position tag names written ↔
      tag.IsProper ∧ written = tag.spell d ∧
        names = Lexeme.names d ⟨.tag tag, Span.ofText position (tag.spell d)⟩ := by
  constructor
  · intro isWritten
    cases isWritten with
    | @opening name identifier =>
        refine ⟨by simpa [IsProper, Tag.names] using identifier, rfl, ?_⟩
        rw [Lexeme.names_opening]
        rfl
    | @closing name identifier =>
        exact ⟨by simpa [IsProper, Tag.names] using identifier, rfl, rfl⟩
    | @placeholder root path text identifier dotted =>
        rcases Ident.dotted_iff.mp dotted with ⟨identifiers, placed, rfl⟩
        refine ⟨?_, rfl, ?_⟩
        · rintro name (_ | ⟨_, member⟩)
          · exact identifier
          · rcases List.mem_map.mp member with ⟨ident, identMem, rfl⟩
            exact identifiers ident identMem
        · rw [Lexeme.names_placeholder]
          exact congrArg (_ :: ·) placed
  · rintro ⟨proper, rfl, rfl⟩
    cases tag with
    | opening name =>
        rw [Lexeme.names_opening]
        exact .opening (proper name List.mem_cons_self)
    | closing name => exact .closing (proper name List.mem_cons_self)
    | placeholder root path =>
        have identifiers : ∀ name ∈ path, Text.IsIdentifier name.toList :=
          fun name member => proper name (List.mem_cons_of_mem _ member)
        have whole := Written.placeholder (proper root List.mem_cons_self)
          (Ident.dotted_placePath (position + Text.byteLength (d.left ++ root.toList)) identifiers)
        rw [Ident.map_name_placePath] at whole
        rw [Lexeme.names_placeholder]
        exact whole

/-- If the delimiters can be told apart, what is read at the beginning of a text is exactly what is
written there as a tag: a loop marker or a placeholder, with its names in their places.  There is one
place at most where it can end. -/
theorem Lexeme.tagAt?_eq_some_iff_written {d : Delimiters} (separate : d.Separate) (position : Nat)
    (text : List Char) :
    (∀ tag names stop,
      (∃ lexeme, tagAt? d position text = some lexeme ∧ lexeme.token = .tag tag ∧
        lexeme.names d = names ∧ lexeme.span = ⟨position, stop⟩) ↔
      Tag.WrittenTo d text position stop tag names) ∧
    ∀ tag names stop otherTag otherNames otherStop,
      Tag.WrittenTo d text position stop tag names →
      Tag.WrittenTo d text position otherStop otherTag otherNames →
      stop = otherStop ∧ tag = otherTag ∧ names = otherNames := by
  have isRead : ∀ tag names stop, Tag.WrittenTo d text position stop tag names ↔
      ∃ rest, Tag.read d text = some (tag, rest) ∧
        stop = position + Text.byteLength (tag.spell d) ∧
        names = Lexeme.names d ⟨.tag tag, Span.ofText position (tag.spell d)⟩ := by
    intro tag names stop
    simp only [Tag.WrittenTo, Tag.written_iff, Tag.read_eq_some_iff separate]
    constructor
    · rintro ⟨_, rest, split, ends, proper, rfl, named⟩
      exact ⟨rest, ⟨proper, split⟩, ends, named⟩
    · rintro ⟨rest, ⟨proper, split⟩, ends, named⟩
      exact ⟨_, rest, split, ends, proper, rfl, named⟩
  constructor
  · intro tag names stop
    rw [isRead]
    constructor
    · rintro ⟨_, found, isTag, rfl, ends⟩
      rcases Option.map_eq_some_iff.mp found with ⟨⟨content, rest⟩, read, rfl⟩
      cases isTag
      exact ⟨rest, read, (congrArg Span.stop ends).symm, rfl⟩
    · rintro ⟨rest, read, rfl, rfl⟩
      exact ⟨_, congrArg (Option.map _) read, rfl, rfl, rfl⟩
  · intro tag names stop otherTag otherNames otherStop first second
    rcases (isRead _ _ _).mp first with ⟨rest, read, rfl, rfl⟩
    rcases (isRead _ _ _).mp second with ⟨otherRest, otherRead, rfl, rfl⟩
    rw [read] at otherRead
    cases otherRead
    exact ⟨rfl, rfl, rfl⟩

/-- A path of two names between the standard delimiters, behind other text of its line. -/
theorem Lexeme.tagAt?_groupLabel :
    Delimiters.standard.Separate ∧
      Tag.WrittenTo .standard "\x7bgroup.label\x7d;".toList 4 17 (.placeholder "group" ["label"])
        [⟨"group", ⟨5, 10⟩⟩, ⟨"label", ⟨11, 16⟩⟩] := by
  refine ⟨Delimiters.separate_standard, ?_⟩
  have whole := (tagAt?_eq_some_iff_written Delimiters.separate_standard 4
    "\x7bgroup.label\x7d;".toList).1
  exact (whole _ _ _).mp
    ⟨⟨.tag (.placeholder "group" ["label"]), ⟨4, 17⟩⟩, by decide +kernel, rfl, by decide, rfl⟩

end GraphTemplate
