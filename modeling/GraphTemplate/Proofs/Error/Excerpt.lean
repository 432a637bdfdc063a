import GraphTemplate.Error
import GraphTemplate.Proofs.Template.Newline
import Mathlib.Data.List.DropRight
import Mathlib.Data.Option.Basic

/-!
# Excerpts at spans of a source

The excerpt for a span that covers some text of its source shows the line on which the text begins,
with the number of that line, and as many carets below the text as it is wide.

The cuts that an excerpt makes in a source and in its lines are made at character boundaries.
`checkedExcerpt?` looks at this before each of them, and has nothing to fall back on where a
position is on none of the lines; it shows the same.
-/

namespace GraphTemplate

namespace Text

/-- The text up to a position and the text from there on, if the position is a character boundary of
the text. -/
def splitAt? (bytes : Nat) (text : List Char) : Option (List Char × List Char) :=
  if byteLength (takeBytes bytes text) = bytes then
    some (takeBytes bytes text, dropBytes bytes text)
  else none

theorem splitAt?_append (before after : List Char) :
    splitAt? (byteLength before) (before ++ after) = some (before, after) := by
  simp [splitAt?]

theorem splitAt?_eq_some_iff {bytes : Nat} {text before after : List Char} :
    splitAt? bytes text = some (before, after) ↔
      text = before ++ after ∧ byteLength before = bytes := by
  constructor
  · intro cut
    simp only [splitAt?, Option.ite_none_right_eq_some, Option.some.injEq, Prod.mk.injEq] at cut
    rcases cut with ⟨length, rfl, rfl⟩
    exact ⟨(takeBytes_append_dropBytes bytes text).symm, length⟩
  · rintro ⟨rfl, rfl⟩
    exact splitAt?_append before after

/-! ### Lines around a position -/

section

variable {line : List Char} (inLine : '\n' ∉ line)

include inLine

theorem ne_newline_of_mem : ∀ c ∈ line, (c ≠ '\n' : Bool) := by
  intro c member
  simpa using ne_of_mem_of_not_mem member inLine

theorem withoutNewline_of_inLine : withoutNewline line = line := by
  apply if_neg
  exact fun last => inLine (List.mem_of_getLast? last)

theorem lines_of_inLine (nonempty : line ≠ []) : lines line = [line] := by
  induction line with
  | nil => exact absurd rfl nonempty
  | cons c rest ih =>
      rw [List.mem_cons, not_or] at inLine
      rw [lines, if_neg (Ne.symm inLine.1)]
      rcases rest with _ | ⟨next, more⟩
      · rfl
      · rw [ih inLine.2 (List.cons_ne_nil next more)]

theorem takeWhile_append_of_inLine (rest : List Char) :
    (line ++ rest).takeWhile (· ≠ '\n') = line ++ rest.takeWhile (· ≠ '\n') :=
  List.takeWhile_append_of_pos (ne_newline_of_mem inLine)

end

theorem withoutNewline_append_newline (line : List Char) :
    withoutNewline (line ++ ['\n']) = line := by
  simp [withoutNewline]

/-- The first line of a text goes up to the first newline. -/
theorem exists_lines_eq_cons {text : List Char} (nonempty : text ≠ []) :
    ∃ rest, (lines text).map withoutNewline = text.takeWhile (· ≠ '\n') :: rest := by
  by_cases broken : '\n' ∈ text
  · rcases List.eq_append_cons_of_mem broken with ⟨line, rest, rfl, inLine⟩
    refine ⟨(lines rest).map withoutNewline, ?_⟩
    rw [lines_append_newline inLine, List.map_cons, withoutNewline_append_newline,
      takeWhile_append_of_inLine inLine]
    simp
  · refine ⟨[], ?_⟩
    have whole := takeWhile_append_of_inLine broken []
    rw [List.append_nil, List.takeWhile_nil, List.append_nil] at whole
    rw [lines_of_inLine broken nonempty, List.map_singleton, withoutNewline_of_inLine broken, whole]

/-- What follows the last newline of a text is unaffected by what stands before a newline. -/
theorem rtakeWhile_append_newline (front back : List Char) :
    (front ++ '\n' :: back).rtakeWhile (· ≠ '\n') = back.rtakeWhile (· ≠ '\n') := by
  induction back using List.reverseRecOn with
  | nil => simp
  | append_singleton back c ih =>
      rw [← List.cons_append, ← List.append_assoc, List.rtakeWhile_concat, List.rtakeWhile_concat,
        ih]

end Text

/-- The text that a span covers in a source, if both its ends are character boundaries. -/
def Span.checkedSlice? (span : Span) (source : List Char) : Option (List Char) := do
  let cut ← Text.splitAt? span.start source
  guard (span.start ≤ span.stop)
  let covered ← Text.splitAt? (span.stop - span.start) cut.2
  return covered.1

namespace Spot

variable {width : List Char → Nat}

/-- The position of an offset, if it is a character boundary on one of the lines. -/
def checked? (width : List Char → Nat) (number : Nat) : List (List Char) → Nat → Option Spot
  | [], _ => none
  | line :: rest, offset =>
      if offset ≤ Text.byteLength line then
        (Text.splitAt? offset line).map fun cut => ⟨number, line, width cut.1⟩
      else
        checked? width (number + 1) rest (offset - (Text.byteLength line + 1))

theorem find?_of_checked? {number offset : Nat} {lines : List (List Char)} {spot : Spot}
    (checked : checked? width number lines offset = some spot) :
    find? width number lines offset = some spot := by
  induction lines generalizing number offset with
  | nil => cases checked
  | cons line rest ih =>
      unfold checked? at checked
      unfold find?
      split
      · rename_i onLine
        rw [if_pos onLine, Option.map_eq_some_iff] at checked
        rcases checked with ⟨⟨before, after⟩, cut, rfl⟩
        rcases Text.splitAt?_eq_some_iff.mp cut with ⟨rfl, rfl⟩
        rw [Text.takeBytes_byteLength_append]
      · rename_i behind
        rw [if_neg behind] at checked
        exact ih checked

/-- The position behind a text that something follows is on the line that ends at the next newline,
after as many lines as the text has newlines. -/
theorem checked?_byteLength (width : List Char → Nat) (number : Nat) (before : List Char)
    {more : List Char} (nonempty : more ≠ []) :
    checked? width number ((Text.lines (before ++ more)).map Text.withoutNewline)
        (Text.byteLength before) =
      some ⟨number + before.count '\n',
        before.rtakeWhile (· ≠ '\n') ++ more.takeWhile (· ≠ '\n'),
        width (before.rtakeWhile (· ≠ '\n'))⟩ := by
  induction newlines : before.count '\n' generalizing number before with
  | zero =>
      have inLine : '\n' ∉ before := List.count_eq_zero.mp newlines
      have whole : before.rtakeWhile (· ≠ '\n') = before :=
        List.rtakeWhile_eq_self_iff.mpr (Text.ne_newline_of_mem inLine)
      have some : before ++ more ≠ [] := by simp [nonempty]
      rcases Text.exists_lines_eq_cons some with ⟨rest, split⟩
      rw [split, Text.takeWhile_append_of_inLine inLine, checked?, if_pos (by simp),
        Text.splitAt?_append, whole]
      rfl
  | succ count ih =>
      have broken : '\n' ∈ before := List.count_pos_iff.mp (by omega)
      rcases List.eq_append_cons_of_mem broken with ⟨line, rest, rfl, inLine⟩
      have fewer : rest.count '\n' = count := by
        simpa [List.count_append, List.count_eq_zero.mpr inLine] using newlines
      have newline : ('\n').utf8Size = 1 := rfl
      have behind : ¬Text.byteLength (line ++ '\n' :: rest) ≤ Text.byteLength line := by
        simp only [Text.byteLength_append, Text.byteLength_cons]
        omega
      have left : Text.byteLength (line ++ '\n' :: rest) - (Text.byteLength line + 1) =
          Text.byteLength rest := by
        simp only [Text.byteLength_append, Text.byteLength_cons]
        omega
      rw [List.append_assoc, List.cons_append, Text.lines_append_newline inLine, List.map_cons,
        Text.withoutNewline_append_newline, checked?, if_neg behind, left,
        ih (number + 1) rest fewer, Text.rtakeWhile_append_newline]
      congr 2
      omega

end Spot

/-- The excerpt of a source for a span, if every cut on the way is made at a character boundary and
the span begins on one of the lines. -/
def checkedExcerpt? (width : List Char → Nat) (message source : List Char) (span : Span) :
    Option (List Char) := do
  let spot ← Spot.checked? width 0 ((Text.lines source).map Text.withoutNewline) span.start
  let covered ← span.checkedSlice? source
  return spot.layout (max 1 (width covered)) message

theorem Span.slice_of_checkedSlice? {span : Span} {source covered : List Char}
    (checked : span.checkedSlice? source = some covered) : span.slice source = covered := by
  simp only [checkedSlice?, Option.bind_eq_bind, Option.bind_eq_some_iff] at checked
  rcases checked with ⟨⟨before, rest⟩, cut, _, ordered, ⟨text, after⟩, coveredCut, same⟩
  cases same
  rcases Text.splitAt?_eq_some_iff.mp cut with ⟨rfl, start⟩
  rcases Text.splitAt?_eq_some_iff.mp coveredCut with ⟨rfl, length⟩
  have place : span = ofText (Text.byteLength before) text := by
    rcases span with ⟨first, last⟩
    have ordered := (Option.guard_eq_some' _).mp ordered
    simp only [ofText, mk.injEq] at *
    omega
  rw [place, ← List.append_assoc, slice_ofText]

/-- Where every cut can be made, the excerpt is what they give. -/
theorem excerpt_of_checkedExcerpt? {width : List Char → Nat} {message source shown : List Char}
    {span : Span} (checked : checkedExcerpt? width message source span = some shown) :
    excerpt width message source span = shown := by
  simp only [checkedExcerpt?, Option.bind_eq_bind, Option.bind_eq_some_iff] at checked
  rcases checked with ⟨spot, found, covered, slice, same⟩
  rw [excerpt, Spot.ofOffset, Spot.find?_of_checked? found, Span.slice_of_checkedSlice? slice]
  exact Option.some.inj same

theorem Span.checkedSlice?_ofText (before covered after : List Char) :
    (ofText (Text.byteLength before) covered).checkedSlice? (before ++ covered ++ after) =
      some covered := by
  rw [checkedSlice?, ofText, Nat.add_sub_cancel_left, List.append_assoc, Text.splitAt?_append,
    Option.bind_eq_bind, Option.bind_some, Text.splitAt?_append]
  simp

/-- A span between two character boundaries covers the text between them. -/
theorem Span.exists_covered {source : List Char} {span : Span}
    (starts : (Text.splitAt? span.start source).isSome)
    (stops : (Text.splitAt? span.stop source).isSome) (nonempty : span.start < span.stop) :
    ∃ before covered after, source = before ++ covered ++ after ∧
      span = ofText (Text.byteLength before) covered ∧ covered ≠ [] := by
  rcases span with ⟨start, stop⟩
  rcases Option.isSome_iff_exists.mp starts with ⟨⟨before, rest⟩, startCut⟩
  rcases Option.isSome_iff_exists.mp stops with ⟨⟨upTo, after⟩, stopCut⟩
  rcases Text.splitAt?_eq_some_iff.mp startCut with ⟨rfl, startLength⟩
  rcases Text.splitAt?_eq_some_iff.mp stopCut with ⟨split, stopLength⟩
  dsimp only at nonempty startLength stopLength
  rcases List.append_eq_append_iff.mp split with ⟨covered, rfl, rfl⟩ | ⟨more, rfl, rfl⟩
  · rw [Text.byteLength_append] at stopLength
    refine ⟨before, covered, after, (List.append_assoc _ _ _).symm, ?_, ?_⟩
    · rw [ofText, stopLength, startLength]
    · rintro rfl
      simp only [Text.byteLength_nil] at stopLength
      omega
  · rw [Text.byteLength_append] at startLength
    omega

/-- What is shown for a text that stands in a source: the line in which it begins, from the newline
before it to the next newline, with the number of newlines before it and one more; below the line
carets as wide as the text, one at least, behind blanks as wide as the beginning of the line. -/
def annotated (width : List Char → Nat) (message before covered after : List Char) : List Char :=
  let lead := before.rtakeWhile (· ≠ '\n')
  let line := lead ++ (covered ++ after).takeWhile (· ≠ '\n')
  let number := (toString (before.count '\n' + 1)).toList
  let pad := List.replicate number.length ' '
  "\n ".toList ++ pad ++ " |\n ".toList ++
    number ++ " | ".toList ++ line ++ "\n ".toList ++
    pad ++ " | ".toList ++ List.replicate (width lead) ' ' ++
    List.replicate (max 1 (width covered)) '^' ++ ' ' :: message ++ ['\n']

theorem checkedExcerpt?_ofText (width : List Char → Nat) (message before after : List Char)
    {covered : List Char} (nonempty : covered ≠ []) :
    checkedExcerpt? width message (before ++ covered ++ after)
        (Span.ofText (Text.byteLength before) covered) =
      some (annotated width message before covered after) := by
  have more : covered ++ after ≠ [] := by simp [nonempty]
  have spot := Spot.checked?_byteLength width 0 before more
  rw [← List.append_assoc, Nat.zero_add] at spot
  have start : (Span.ofText (Text.byteLength before) covered).start = Text.byteLength before := rfl
  simp only [checkedExcerpt?, Span.checkedSlice?_ofText, start, spot, Option.bind_eq_bind,
    Option.bind_some, Option.pure_def]
  unfold Spot.layout annotated
  rfl

/-- The excerpt for a span between two character boundaries annotates the text that it covers.  Each
cut on the way is made at a character boundary, and the span begins on one of the lines. -/
theorem excerpt_of_boundaries (width : List Char → Nat) (message : List Char) {source : List Char}
    {span : Span} (starts : (Text.splitAt? span.start source).isSome)
    (stops : (Text.splitAt? span.stop source).isSome) (nonempty : span.start < span.stop) :
    ∃ before covered after, source = before ++ covered ++ after ∧
      span = Span.ofText (Text.byteLength before) covered ∧
      excerpt width message source span = annotated width message before covered after ∧
      checkedExcerpt? width message source span =
        some (annotated width message before covered after) ∧
      ∀ fault : Fault, Error.pretty ⟨fault, some ⟨String.ofList source, span⟩⟩ =
        String.ofList (annotated Text.width fault.message.toList before covered after) := by
  rcases Span.exists_covered starts stops nonempty with ⟨before, covered, after, rfl, rfl, some⟩
  have checked := fun width message => checkedExcerpt?_ofText width message before after some
  refine ⟨before, covered, after, rfl, rfl, excerpt_of_checkedExcerpt? (checked width message),
    checked width message, ?_⟩
  intro fault
  have pretty : Error.pretty ⟨fault, Option.some ⟨String.ofList (before ++ covered ++ after),
      Span.ofText (Text.byteLength before) covered⟩⟩ = String.ofList (excerpt Text.width
        fault.message.toList (String.ofList (before ++ covered ++ after)).toList
        (Span.ofText (Text.byteLength before) covered)) := rfl
  rw [pretty, String.toList_ofList, excerpt_of_checkedExcerpt? (checked _ _)]

/-- The span of a letter and the newline behind it, after a wide character on the second line. -/
theorem excerpt_over_newline :
    (Text.splitAt? 6 "α\n字β\nγ".toList).isSome ∧ (Text.splitAt? 9 "α\n字β\nγ".toList).isSome ∧
    ∃ before covered after, "α\n字β\nγ".toList = before ++ covered ++ after ∧
      (⟨6, 9⟩ : Span) = Span.ofText (Text.byteLength before) covered ∧
      String.ofList (annotated Text.width "here".toList before covered after) =
        "\n   |\n 2 | 字β\n   |   ^ here\n" := by
  let span : Span := ⟨6, 9⟩
  have starts : (Text.splitAt? span.start "α\n字β\nγ".toList).isSome := by decide
  have stops : (Text.splitAt? span.stop "α\n字β\nγ".toList).isSome := by decide
  rcases excerpt_of_boundaries Text.width "here".toList starts stops (by decide) with
    ⟨before, covered, after, split, place, shown, _⟩
  refine ⟨starts, stops, before, covered, after, split, place, ?_⟩
  rw [← shown]
  decide +kernel

end GraphTemplate
