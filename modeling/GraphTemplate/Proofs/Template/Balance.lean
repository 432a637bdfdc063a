import GraphTemplate.Proofs.Template.Placement
import Mathlib.Data.List.Induction

/-!
# Balanced templates

The loop markers of a template are brackets.  A template compiles exactly if no line has more than
one of them, the loops are opened under plurals, and the markers balance.  Written out again, the body
that is compiled is the lines of the template in their order.  If a template does not compile, the
reason is the first line that cannot follow the lines before it, or else the innermost loop that is
left open.

Compiling with two stacks, of the open loops and of the bodies begun, never finds one of them empty
where it needs an entry.
-/

namespace GraphTemplate

/-! ### The markers of lines -/

/-- The name is that of a relation, some name with an `s` behind it. -/
def IsPlural (name : String) : Prop :=
  ∃ element, element ≠ "" ∧ name = plural element

theorem isPlural_iff {name : String} :
    IsPlural name ↔ ∃ element, singular? name = some element := by
  constructor
  · rintro ⟨element, nonempty, rfl⟩
    exact ⟨element, singular?_plural nonempty⟩
  · rintro ⟨element, singular⟩
    refine ⟨element, ?_, (plural_of_singular? singular).symm⟩
    rintro rfl
    unfold singular? at singular
    dsimp only at singular
    split at singular
    · rename_i isPlural
      simp only [Option.some.injEq, String.ofList_eq_empty_iff] at singular
      exact isPlural.2 singular
    · cases singular

namespace SourceLine

/-- The loop markers on a line. -/
def markers (d : Delimiters) (line : SourceLine) : List Marker :=
  (Lexeme.ofLine d line.start line.text).filterMap (Lexeme.marker? d)

/-- The text and the placeholders on a line. -/
def content (d : Delimiters) (line : SourceLine) : Line :=
  ⟨(Lexeme.ofLine d line.start line.text).filterMap (Lexeme.part? d), line.span⟩

end SourceLine

/-- Loop markers in pairs that open and close a loop of the same name, one pair behind or inside
another. -/
inductive Balanced : List Marker → Prop where
  | nil : Balanced []
  | loop {opening closing : Marker} {inner rest : List Marker} (opens : opening.opens = true)
      (closes : closing.opens = false) (same : opening.name.name = closing.name.name)
      (inside : Balanced inner) (behind : Balanced rest) :
      Balanced (opening :: inner ++ closing :: rest)

/-- Behind loop markers the loops of the given markers are open, the innermost first. -/
inductive LeavesOpen : List Marker → List Marker → Prop where
  | none {markers : List Marker} (balanced : Balanced markers) : LeavesOpen markers []
  | one {before inner opened : List Marker} {opening : Marker} (outside : LeavesOpen before opened)
      (opens : opening.opens = true) (inside : Balanced inner) :
      LeavesOpen (before ++ opening :: inner) (opening :: opened)

theorem Balanced.append {front back : List Marker} (first : Balanced front)
    (second : Balanced back) : Balanced (front ++ back) := by
  induction first with
  | nil => exact second
  | loop opens closes same inside _ _ ih =>
      have both := Balanced.loop opens closes same inside ih
      simpa using both

namespace LeavesOpen

theorem append {markers more opened : List Marker} (leaves : LeavesOpen markers opened)
    (balanced : Balanced more) : LeavesOpen (markers ++ more) opened := by
  cases leaves with
  | none before => exact .none (before.append balanced)
  | one outside opens inside =>
      have longer := LeavesOpen.one outside opens (inside.append balanced)
      simpa using longer

theorem opening {markers opened : List Marker} {marker : Marker}
    (leaves : LeavesOpen markers opened) (opens : marker.opens = true) :
    LeavesOpen (markers ++ [marker]) (marker :: opened) :=
  .one leaves opens .nil

theorem closing {markers outer : List Marker} {innermost marker : Marker}
    (leaves : LeavesOpen markers (innermost :: outer)) (closes : marker.opens = false)
    (same : innermost.name.name = marker.name.name) : LeavesOpen (markers ++ [marker]) outer := by
  cases leaves with
  | one outside opens inside =>
      have closed := outside.append (Balanced.loop opens closes same inside .nil)
      simpa using closed

theorem mem {markers opened : List Marker} {marker : Marker} (leaves : LeavesOpen markers opened)
    (member : marker ∈ opened) : marker ∈ markers := by
  induction leaves with
  | none _ => cases member
  | one _ _ _ ih =>
      rcases List.mem_cons.mp member with rfl | outside
      · exact List.mem_append_right _ List.mem_cons_self
      · exact List.mem_append_left _ (ih outside)

end LeavesOpen

/-- The loops that are open behind one more marker, if it opens a loop or closes the innermost. -/
def openAfter? (opened : List Marker) (marker : Marker) : Option (List Marker) :=
  if marker.opens then some (marker :: opened)
  else match opened with
    | [] => none
    | innermost :: outer => if innermost.name.name = marker.name.name then some outer else none

theorem openAfter?_opening {marker : Marker} (opens : marker.opens = true) (opened : List Marker) :
    openAfter? opened marker = some (marker :: opened) :=
  if_pos opens

theorem openAfter?_closing {innermost marker : Marker} (closes : marker.opens = false)
    (same : innermost.name.name = marker.name.name) (outer : List Marker) :
    openAfter? (innermost :: outer) marker = some outer := by
  simp [openAfter?, closes, same]

theorem Balanced.foldlM_openAfter? {markers : List Marker} (balanced : Balanced markers)
    (opened : List Marker) : markers.foldlM openAfter? opened = some opened := by
  induction balanced generalizing opened with
  | nil => rfl
  | loop opens closes same _ _ innerIh restIh =>
      simp only [List.cons_append, List.foldlM_cons, List.foldlM_append, openAfter?_opening opens,
        openAfter?_closing closes same, Option.bind_eq_bind, Option.bind_some, innerIh, restIh]

theorem LeavesOpen.foldlM_openAfter? {markers opened : List Marker}
    (leaves : LeavesOpen markers opened) : markers.foldlM openAfter? [] = some opened := by
  induction leaves with
  | none balanced => exact balanced.foldlM_openAfter? []
  | one _ opens inside ih =>
      simp only [List.foldlM_append, ih, List.foldlM_cons, openAfter?_opening opens,
        Option.bind_eq_bind, Option.bind_some, inside.foldlM_openAfter?]

theorem LeavesOpen.openAfter? {markers opened reached : List Marker} {marker : Marker}
    (leaves : LeavesOpen markers opened) (follows : openAfter? opened marker = some reached) :
    LeavesOpen (markers ++ [marker]) reached := by
  unfold GraphTemplate.openAfter? at follows
  split at follows
  · rename_i opens
    cases follows
    exact leaves.opening opens
  · rename_i closes
    split at follows
    · cases follows
    · split at follows
      · rename_i same
        cases follows
        exact leaves.closing (Bool.eq_false_iff.mpr closes) same
      · cases follows

/-- Which loops markers leave open is found by matching every closing marker with the innermost open
loop. -/
theorem leavesOpen_iff {markers opened : List Marker} :
    LeavesOpen markers opened ↔ markers.foldlM openAfter? [] = some opened := by
  constructor
  · exact LeavesOpen.foldlM_openAfter?
  · intro matched
    induction markers using List.reverseRecOn generalizing opened with
    | nil =>
        cases matched
        exact .none .nil
    | append_singleton before marker ih =>
        rw [List.foldlM_append, Option.bind_eq_bind, Option.bind_eq_some_iff] at matched
        rcases matched with ⟨between, first, last⟩
        rw [List.foldlM_cons, Option.bind_eq_bind, Option.bind_eq_some_iff] at last
        rcases last with ⟨reached, follows, same⟩
        cases same
        exact (ih first).openAfter? follows

theorem LeavesOpen.unique {markers opened other : List Marker} (leaves : LeavesOpen markers opened)
    (otherLeaves : LeavesOpen markers other) : opened = other := by
  rw [leavesOpen_iff] at leaves otherLeaves
  exact Option.some.inj (leaves.symm.trans otherLeaves)

theorem leavesOpen_nil_iff {markers : List Marker} : LeavesOpen markers [] ↔ Balanced markers :=
  ⟨fun leaves => by cases leaves; assumption, .none⟩

/-! ### Lines of a body -/

/-- A line of a template: text, a line with placeholders, or one end of a loop. -/
inductive Entry where
  | text (content : String) (span : Span)
  | line (content : Line)
  | opening (relation : Ident)
  | closing (name : String)
deriving DecidableEq, Repr

/-- What a line of a source is by its tags. -/
inductive Entry.OnLine (d : Delimiters) (line : SourceLine) : Entry → Prop where
  | text (unmarked : line.markers d = []) (plain : (line.content d).placeholders = []) :
      OnLine d line (.text (String.ofList line.text) line.span)
  | line (unmarked : line.markers d = []) (filled : (line.content d).placeholders ≠ []) :
      OnLine d line (.line (line.content d))
  | opening {marker : Marker} (only : line.markers d = [marker]) (opens : marker.opens = true) :
      OnLine d line (.opening marker.name)
  | closing {marker : Marker} (only : line.markers d = [marker]) (closes : marker.opens = false) :
      OnLine d line (.closing marker.name.name)

namespace Body

/-- The lines of a body, written out with the ends of its loops. -/
def entries : Body → List Entry
  | nil => []
  | text content span rest => .text content span :: rest.entries
  | line content rest => .line content :: rest.entries
  | loop relation _ inner rest =>
      .opening relation :: inner.entries ++ .closing relation.name :: rest.entries

theorem entries_reverseOnto (body done : Body) :
    (body.reverseOnto done).entries = body.reverse.entries ++ done.entries := by
  unfold reverse
  induction body generalizing done with
  | nil => rfl
  | text content span rest ih =>
      rw [reverseOnto, ih, reverseOnto, ih (text content span nil)]
      simp [entries]
  | line content rest ih =>
      rw [reverseOnto, ih, reverseOnto, ih (line content nil)]
      simp [entries]
  | loop relation element inner rest _ ih =>
      rw [reverseOnto, ih, reverseOnto, ih (loop relation element inner nil)]
      simp [entries]

theorem entries_reverse_text (content : String) (span : Span) (before : Body) :
    (text content span before).reverse.entries = before.reverse.entries ++ [.text content span] :=
  entries_reverseOnto before _

theorem entries_reverse_line (content : Line) (before : Body) :
    (line content before).reverse.entries = before.reverse.entries ++ [.line content] :=
  entries_reverseOnto before _

theorem entries_reverse_loop (relation : Ident) (element : String) (inner before : Body) :
    (loop relation element inner before).reverse.entries =
      before.reverse.entries ++ .opening relation :: inner.entries ++ [.closing relation.name] := by
  rw [reverse, reverseOnto, entries_reverseOnto]
  simp [entries]

end Body

/-! ### Reading a line -/

namespace LineClass

variable {d : Delimiters} {line : SourceLine}

theorem ofLine_of_unmarked (unmarked : line.markers d = []) : ofLine d line =
    if (line.content d).placeholders.isEmpty then .text (String.ofList line.text) line.span
    else .line (line.content d) := by
  unfold SourceLine.markers at unmarked
  unfold ofLine
  dsimp only
  rw [unmarked]
  rfl

theorem ofLine_of_marker {marker : Marker} (only : line.markers d = [marker]) :
    ofLine d line = .marker marker := by
  unfold SourceLine.markers at only
  unfold ofLine
  dsimp only
  rw [only]

theorem ofLine_of_several {first second : Marker} {more : List Marker}
    (several : line.markers d = first :: second :: more) :
    ofLine d line = .crowded second.span := by
  unfold SourceLine.markers at several
  unfold ofLine
  dsimp only
  rw [several]

end LineClass

namespace Nesting

/-- The markers of the open loops, innermost first. -/
def opened (nesting : Nesting) : List Marker :=
  nesting.loops.map fun loop => ⟨true, loop.relation, loop.marker⟩

/-- The lines read so far. -/
def entries (nesting : Nesting) : List Entry :=
  (nesting.loops.reverse.flatMap fun loop =>
    loop.before.reverse.entries ++ [.opening loop.relation]) ++ nesting.current.reverse.entries

/-- Everything that can happen when a line is read. -/
inductive Reads (d : Delimiters) (nesting : Nesting) (line : SourceLine) :
    Except LocatedFault Nesting → Prop where
  | text (unmarked : line.markers d = []) (plain : (line.content d).placeholders = []) :
      Reads d nesting line
        (.ok ⟨.text (String.ofList line.text) line.span nesting.current, nesting.loops⟩)
  | line (unmarked : line.markers d = []) (filled : (line.content d).placeholders ≠ []) :
      Reads d nesting line (.ok ⟨.line (line.content d) nesting.current, nesting.loops⟩)
  | crowded {first second : Marker} {more : List Marker}
      (several : line.markers d = first :: second :: more) :
      Reads d nesting line (.error ⟨.crowdedLine, second.span⟩)
  | singular {marker : Marker} (only : line.markers d = [marker]) (opens : marker.opens = true)
      (noPlural : singular? marker.name.name = none) :
      Reads d nesting line (.error ⟨.singularLoop, marker.name.span⟩)
  | opening {marker : Marker} {element : String} (only : line.markers d = [marker])
      (opens : marker.opens = true) (singular : singular? marker.name.name = some element) :
      Reads d nesting line
        (.ok ⟨.nil, ⟨marker.name, element, marker.span, nesting.current⟩ :: nesting.loops⟩)
  | stray {marker : Marker} (only : line.markers d = [marker]) (closes : marker.opens = false)
      (closed : nesting.loops = []) : Reads d nesting line (.error ⟨.strayClose, marker.span⟩)
  | closing {marker : Marker} {innermost : OpenLoop} {outer : List OpenLoop}
      (only : line.markers d = [marker]) (closes : marker.opens = false)
      (loops : nesting.loops = innermost :: outer)
      (same : innermost.relation.name = marker.name.name) :
      Reads d nesting line (.ok ⟨.loop innermost.relation innermost.element
        nesting.current.reverse innermost.before, outer⟩)
  | mismatched {marker : Marker} {innermost : OpenLoop} {outer : List OpenLoop}
      (only : line.markers d = [marker]) (closes : marker.opens = false)
      (loops : nesting.loops = innermost :: outer)
      (different : innermost.relation.name ≠ marker.name.name) :
      Reads d nesting line (.error ⟨.mismatchedClose innermost.relation.name, marker.span⟩)

theorem reads_add (d : Delimiters) (nesting : Nesting) (line : SourceLine) :
    nesting.Reads d line (nesting.add (.ofLine d line)) := by
  rcases found : line.markers d with _ | ⟨⟨opens, name, span⟩, _ | ⟨second, more⟩⟩
  · rw [LineClass.ofLine_of_unmarked found]
    split
    · rename_i plain
      exact .text found (List.isEmpty_iff.mp plain)
    · rename_i filled
      exact .line found fun none => filled (List.isEmpty_iff.mpr none)
  · rw [LineClass.ofLine_of_marker found]
    cases opens with
    | true =>
        rcases singular : singular? name.name with _ | element
        · simp only [add, singular]
          exact .singular found rfl singular
        · simp only [add, singular]
          exact .opening found rfl singular
    | false =>
        rcases loops : nesting.loops with _ | ⟨innermost, outer⟩
        · simp only [add, loops]
          exact .stray found rfl loops
        · by_cases same : innermost.relation.name = name.name
          · simp only [add, loops, same, if_true]
            exact .closing found rfl loops same
          · simp only [add, loops, same, if_false]
            exact .mismatched found rfl loops same
  · rw [LineClass.ofLine_of_several found]
    exact .crowded found

variable {d : Delimiters} {nesting after : Nesting} {line : SourceLine}

theorem openAfter?_of_reads (reads : nesting.Reads d line (.ok after)) :
    (line.markers d).foldlM openAfter? nesting.opened = some after.opened := by
  cases reads with
  | text unmarked _ => rw [unmarked]; rfl
  | line unmarked _ => rw [unmarked]; rfl
  | @opening marker _ only opens _ =>
      rcases marker with ⟨_, name, span⟩
      cases opens
      rw [only]
      rfl
  | closing only closes loops same =>
      rw [only, List.foldlM_cons, opened, loops, List.map_cons, openAfter?_closing closes same]
      rfl

theorem exists_entry_of_reads (reads : nesting.Reads d line (.ok after)) :
    ∃ entry, Entry.OnLine d line entry ∧ after.entries = nesting.entries ++ [entry] := by
  cases reads with
  | text unmarked plain =>
      refine ⟨_, .text unmarked plain, ?_⟩
      simp [entries, Body.entries_reverse_text]
  | line unmarked filled =>
      refine ⟨_, .line unmarked filled, ?_⟩
      simp [entries, Body.entries_reverse_line]
  | opening only opens singular =>
      refine ⟨_, .opening only opens, ?_⟩
      simp [entries, Body.reverse, Body.reverseOnto, Body.entries]
  | closing only closes loops same =>
      refine ⟨_, .closing only closes, ?_⟩
      simp [entries, loops, Body.entries_reverse_loop, same]

end Nesting

/-! ### The first line that does not fit -/

/-- A line that cannot follow the lines before it, and what is reported then. -/
inductive Offends (d : Delimiters) (before : List SourceLine) (line : SourceLine) :
    LocatedFault → Prop where
  | crowded {first second : Marker} {more : List Marker}
      (several : line.markers d = first :: second :: more) :
      Offends d before line ⟨.crowdedLine, second.span⟩
  | singular {marker : Marker} (only : line.markers d = [marker]) (opens : marker.opens = true)
      (noPlural : ¬IsPlural marker.name.name) :
      Offends d before line ⟨.singularLoop, marker.name.span⟩
  | stray {marker : Marker} (only : line.markers d = [marker]) (closes : marker.opens = false)
      (closed : LeavesOpen (before.flatMap (SourceLine.markers d)) []) :
      Offends d before line ⟨.strayClose, marker.span⟩
  | mismatched {marker innermost : Marker} {outer : List Marker} (only : line.markers d = [marker])
      (closes : marker.opens = false)
      (opened : LeavesOpen (before.flatMap (SourceLine.markers d)) (innermost :: outer))
      (different : innermost.name.name ≠ marker.name.name) :
      Offends d before line ⟨.mismatchedClose innermost.name.name, marker.span⟩

/-- Every line can follow the lines before it. -/
def Unoffending (d : Delimiters) (lines : List SourceLine) : Prop :=
  ∀ before line after, lines = before ++ line :: after → ∀ located, ¬Offends d before line located

/-- The first line that cannot follow the lines before it is one with a property. -/
def FirstOffender (d : Delimiters) (lines : List SourceLine)
    (property : List SourceLine → SourceLine → Prop) : Prop :=
  ∃ before line after, lines = before ++ line :: after ∧ Unoffending d before ∧
    property before line

/-- What is reported for the first line that cannot follow the lines before it. -/
def FirstOffence (d : Delimiters) (lines : List SourceLine) (located : LocatedFault) : Prop :=
  FirstOffender d lines fun before line => Offends d before line located

/-- What is reported for the innermost of the loops that are left open. -/
def Unclosed (d : Delimiters) (lines : List SourceLine) (located : LocatedFault) : Prop :=
  ∃ innermost outer, LeavesOpen (lines.flatMap (SourceLine.markers d)) (innermost :: outer) ∧
    located = ⟨.unclosedLoop, innermost.span⟩

/-- A line with several markers, or one that opens a loop under a name that is no plural. -/
def SourceLine.IsMalformed (d : Delimiters) (line : SourceLine) : Prop :=
  2 ≤ (line.markers d).length ∨
    ∃ marker, line.markers d = [marker] ∧ marker.opens = true ∧ ¬IsPlural marker.name.name

/-- A line that closes a loop where none is open behind the lines before it, or where the innermost
one has another name. -/
def SourceLine.IsUnbalanced (d : Delimiters) (before : List SourceLine) (line : SourceLine) : Prop :=
  ∃ marker opened, line.markers d = [marker] ∧ marker.opens = false ∧
    LeavesOpen (before.flatMap (SourceLine.markers d)) opened ∧
    ∀ innermost ∈ opened.head?, innermost.name.name ≠ marker.name.name

section Categories

variable {d : Delimiters} {before : List SourceLine} {line : SourceLine} {located : LocatedFault}

/-- The category of what is reported for a line tells what is wrong with the line. -/
theorem Offends.category (offends : Offends d before line located) :
    located.fault.category = .malformed ∧ line.IsMalformed d ∨
      located.fault.category = .unbalanced ∧ line.IsUnbalanced d before := by
  cases offends with
  | crowded several => exact Or.inl ⟨rfl, Or.inl (by simp [several])⟩
  | singular only opens noPlural => exact Or.inl ⟨rfl, Or.inr ⟨_, only, opens, noPlural⟩⟩
  | stray only closes closed => exact Or.inr ⟨rfl, _, _, only, closes, closed, by simp⟩
  | mismatched only closes opened different =>
      exact Or.inr ⟨rfl, _, _, only, closes, opened, by simpa using different⟩

theorem SourceLine.IsMalformed.exists_offends (malformed : line.IsMalformed d)
    (before : List SourceLine) :
    ∃ located, Offends d before line located ∧ located.fault.category = .malformed := by
  rcases malformed with several | ⟨marker, only, opens, noPlural⟩
  · rcases markers : line.markers d with _ | ⟨first, _ | ⟨second, more⟩⟩
    · simp [markers] at several
    · simp [markers] at several
    · exact ⟨_, .crowded markers, rfl⟩
  · exact ⟨_, .singular only opens noPlural, rfl⟩

theorem SourceLine.IsUnbalanced.exists_offends (unbalanced : line.IsUnbalanced d before) :
    ∃ located, Offends d before line located ∧ located.fault.category = .unbalanced := by
  rcases unbalanced with ⟨marker, _ | ⟨innermost, outer⟩, only, closes, leaves, different⟩
  · exact ⟨_, .stray only closes leaves, rfl⟩
  · exact ⟨_, .mismatched only closes leaves (different innermost rfl), rfl⟩

end Categories

namespace Nesting

variable {d : Delimiters} {nesting after : Nesting} {before : List SourceLine} {line : SourceLine}
  {located : LocatedFault}

theorem add_eq_error_iff
    (leaves : LeavesOpen (before.flatMap (SourceLine.markers d)) nesting.opened) :
    nesting.add (.ofLine d line) = .error located ↔ Offends d before line located := by
  constructor
  · intro failed
    have reads := nesting.reads_add d line
    rw [failed] at reads
    cases reads with
    | crowded several => exact .crowded several
    | singular only opens noPlural =>
        refine .singular only opens ?_
        rw [isPlural_iff, noPlural]
        simp
    | stray only closes closed =>
        rw [opened, closed] at leaves
        exact .stray only closes leaves
    | mismatched only closes loops different =>
        rw [opened, loops] at leaves
        exact .mismatched only closes leaves different
  · intro offends
    cases offends with
    | crowded several =>
        rw [LineClass.ofLine_of_several several]
        rfl
    | @singular marker only opens noPlural =>
        rcases marker with ⟨_, name, span⟩
        cases opens
        have none : singular? name.name = none := by
          rw [isPlural_iff] at noPlural
          exact Option.eq_none_iff_forall_ne_some.mpr fun element same => noPlural ⟨element, same⟩
        rw [LineClass.ofLine_of_marker only]
        simp only [add, none]
    | @stray marker only closes closed =>
        rcases marker with ⟨_, name, span⟩
        cases closes
        have noLoops : nesting.loops = [] := List.map_eq_nil_iff.mp (leaves.unique closed)
        rw [LineClass.ofLine_of_marker only]
        simp only [add, noLoops]
    | @mismatched marker innermost outer only closes opened different =>
        rcases marker with ⟨_, name, span⟩
        cases closes
        rcases List.map_eq_cons_iff.mp (leaves.unique opened) with ⟨loop, others, loops, rfl, _⟩
        rw [LineClass.ofLine_of_marker only]
        simp only [add, loops, if_neg different]

end Nesting

/-- The nesting behind lines. -/
def Nesting.behind (d : Delimiters) (lines : List SourceLine) : Except LocatedFault Nesting :=
  (lines.map (LineClass.ofLine d)).foldlM add start

namespace Nesting

variable {d : Delimiters} {lines : List SourceLine} {line : SourceLine} {nesting : Nesting}
  {located : LocatedFault}

theorem behind_append (lines : List SourceLine) (line : SourceLine) :
    behind d (lines ++ [line]) =
      behind d lines >>= fun nesting => nesting.add (.ofLine d line) := by
  simp only [behind, List.map_append, List.foldlM_append, List.map_cons, List.map_nil,
    List.foldlM_cons, List.foldlM_nil, bind_pure]

/-- What holds of lines that have been read, and of the nesting behind them. -/
structure Reached (d : Delimiters) (lines : List SourceLine) (nesting : Nesting) : Prop where
  leaves : LeavesOpen (lines.flatMap (SourceLine.markers d)) nesting.opened
  single : ∀ line ∈ lines, (line.markers d).length ≤ 1
  plural : ∀ line ∈ lines, ∀ marker ∈ line.markers d, marker.opens = true →
    IsPlural marker.name.name
  entries : List.Forall₂ (fun line entry => Entry.OnLine d line entry) lines nesting.entries
  unoffending : Unoffending d lines

theorem reached_start (d : Delimiters) : Reached d [] start where
  leaves := .none .nil
  single line member := by cases member
  plural line member := by cases member
  entries := .nil
  unoffending before line after split := by simp at split

theorem unoffending_append_iff :
    Unoffending d (lines ++ [line]) ↔
      Unoffending d lines ∧ ∀ located, ¬Offends d lines line located := by
  constructor
  · intro unoffending
    refine ⟨?_, unoffending lines line [] rfl⟩
    rintro before other after rfl
    exact unoffending before other (after ++ [line]) (by simp)
  · rintro ⟨earlier, last⟩ before other after split
    rcases List.eq_nil_or_concat after with rfl | ⟨after, other', rfl⟩
    · rcases List.append_inj' split rfl with ⟨rfl, same⟩
      cases same
      exact last
    · rw [List.concat_eq_append, ← List.cons_append, ← List.append_assoc] at split
      rcases List.append_inj' split rfl with ⟨rfl, _⟩
      exact earlier before other after rfl

theorem Reached.add {after : Nesting} (reached : Reached d lines nesting)
    (added : nesting.add (.ofLine d line) = .ok after) : Reached d (lines ++ [line]) after := by
  have reads := nesting.reads_add d line
  rw [added] at reads
  rcases exists_entry_of_reads reads with ⟨entry, onLine, entries⟩
  have markers : (line.markers d).length ≤ 1 ∧
      ∀ marker ∈ line.markers d, marker.opens = true → IsPlural marker.name.name := by
    cases reads with
    | text unmarked _ => simp [unmarked]
    | line unmarked _ => simp [unmarked]
    | opening only _ singular => simpa [only, isPlural_iff] using fun _ => ⟨_, singular⟩
    | closing only closes _ _ => simp [only, closes]
  constructor
  · rw [leavesOpen_iff, List.flatMap_append, List.foldlM_append, leavesOpen_iff.mp reached.leaves]
    simpa using openAfter?_of_reads reads
  · simpa [or_imp, forall_and] using ⟨reached.single, markers.1⟩
  · intro other member
    rcases List.mem_append.mp member with before | last
    · exact reached.plural other before
    · rw [List.mem_singleton.mp last]
      exact markers.2
  · rw [entries]
    exact List.rel_append reached.entries (.cons onLine .nil)
  · refine unoffending_append_iff.mpr ⟨reached.unoffending, ?_⟩
    intro located offends
    rw [(add_eq_error_iff reached.leaves).mpr offends] at added
    cases added

theorem reached_of_behind (read : behind d lines = .ok nesting) : Reached d lines nesting := by
  induction lines using List.reverseRecOn generalizing nesting with
  | nil =>
      cases read
      exact reached_start d
  | append_singleton before line ih =>
      rw [behind_append] at read
      rcases earlier : behind d before with fault | reached
      · simp [earlier, Bind.bind, Except.bind] at read
      · rw [earlier] at read
        exact (ih earlier).add read

theorem firstOffence_append (offence : FirstOffence d lines located) (later : List SourceLine) :
    FirstOffence d (lines ++ later) located := by
  rcases offence with ⟨before, line, after, rfl, unoffending, offends⟩
  exact ⟨before, line, after ++ later, by simp, unoffending, offends⟩

theorem firstOffence_of_behind (failed : behind d lines = .error located) :
    FirstOffence d lines located := by
  induction lines using List.reverseRecOn generalizing located with
  | nil => cases failed
  | append_singleton before line ih =>
      rw [behind_append] at failed
      rcases earlier : behind d before with fault | reached
      · rw [earlier] at failed
        cases failed
        exact firstOffence_append (ih earlier) [line]
      · rw [earlier] at failed
        have holds := reached_of_behind earlier
        exact ⟨before, line, [], rfl, holds.unoffending, (add_eq_error_iff holds.leaves).mp failed⟩

theorem not_unoffending_of_firstOffence (offence : FirstOffence d lines located) :
    ¬Unoffending d lines := by
  rcases offence with ⟨before, line, after, split, _, offends⟩
  exact fun unoffending => unoffending before line after split located offends

theorem exists_behind_of_unoffending (unoffending : Unoffending d lines) :
    ∃ nesting, behind d lines = .ok nesting := by
  rcases read : behind d lines with fault | nesting
  · exact absurd unoffending (not_unoffending_of_firstOffence (firstOffence_of_behind read))
  · exact ⟨nesting, rfl⟩

theorem behind_eq_error_of_firstOffence (offence : FirstOffence d lines located) :
    behind d lines = .error located := by
  rcases offence with ⟨before, line, after, rfl, unoffending, offends⟩
  rcases exists_behind_of_unoffending unoffending with ⟨nesting, read⟩
  have failed := (add_eq_error_iff (reached_of_behind read).leaves).mpr offends
  have split : before ++ line :: after = before ++ [line] ++ after := by simp
  have first : behind d (before ++ [line]) = .error located := by
    rw [behind_append, read]
    exact failed
  rw [split, behind, List.map_append, List.foldlM_append]
  rw [behind] at first
  rw [first]
  rfl

end Nesting

namespace Body

variable {d : Delimiters} {lines : List SourceLine} {body : Body} {located : LocatedFault}

theorem exists_behind_of_ofLines? (read : ofLines? (lines.map (LineClass.ofLine d)) = .ok body) :
    ∃ nesting, Nesting.Reached d lines nesting ∧ nesting.loops = [] ∧
      body = nesting.current.reverse := by
  unfold ofLines? at read
  change (Nesting.behind d lines >>= fun nesting => nesting.finish) = .ok body at read
  rcases behind : Nesting.behind d lines with fault | nesting
  · rw [behind] at read
    cases read
  · rw [behind] at read
    change nesting.finish = .ok body at read
    unfold Nesting.finish at read
    split at read
    · rename_i noLoops
      cases read
      exact ⟨nesting, Nesting.reached_of_behind behind, noLoops, rfl⟩
    · cases read

theorem ofLines?_eq_error_iff : ofLines? (lines.map (LineClass.ofLine d)) = .error located ↔
    FirstOffence d lines located ∨ Unoffending d lines ∧ Unclosed d lines located := by
  unfold ofLines?
  change (Nesting.behind d lines >>= fun nesting => nesting.finish) = .error located ↔ _
  constructor
  · intro failed
    rcases behind : Nesting.behind d lines with fault | nesting
    · rw [behind] at failed
      cases failed
      exact Or.inl (Nesting.firstOffence_of_behind behind)
    · rw [behind] at failed
      change nesting.finish = .error located at failed
      have reached := Nesting.reached_of_behind behind
      unfold Nesting.finish at failed
      split at failed
      · cases failed
      · rename_i innermost outer loops
        cases failed
        have leaves := reached.leaves
        rw [Nesting.opened, loops, List.map_cons] at leaves
        exact Or.inr ⟨reached.unoffending, _, _, leaves, rfl⟩
  · rintro (offence | ⟨unoffending, innermost, outer, leaves, rfl⟩)
    · rw [Nesting.behind_eq_error_of_firstOffence offence]
      rfl
    · rcases Nesting.exists_behind_of_unoffending unoffending with ⟨nesting, behind⟩
      have reached := Nesting.reached_of_behind behind
      rcases List.map_eq_cons_iff.mp (reached.leaves.unique leaves) with ⟨loop, _, loops, rfl, _⟩
      rw [behind]
      change nesting.finish = _
      simp only [Nesting.finish, loops]

section Categories

variable (failed : ofLines? (lines.map (LineClass.ofLine d)) = .error located)

include failed

theorem category_of_firstOffender {property : List SourceLine → SourceLine → Prop}
    {category : Category} (first : FirstOffender d lines property)
    (offends : ∀ before line, property before line →
      ∃ located, Offends d before line located ∧ located.fault.category = category) :
    located.fault.category = category := by
  rcases first with ⟨before, line, after, split, unoffending, holds⟩
  rcases offends before line holds with ⟨reported, offence, category⟩
  have same := ofLines?_eq_error_iff.mpr
    (Or.inl ⟨before, line, after, split, unoffending, offence⟩)
  rw [failed] at same
  cases same
  exact category

/-- Lines are malformed if the first one that cannot follow the lines before it is. -/
theorem category_eq_malformed_iff : located.fault.category = .malformed ↔
    FirstOffender d lines fun _ line => line.IsMalformed d := by
  constructor
  · intro malformed
    rcases ofLines?_eq_error_iff.mp failed with
      ⟨before, line, after, split, unoffending, offends⟩ | ⟨_, _, _, _, rfl⟩
    · rcases offends.category with ⟨_, holds⟩ | ⟨unbalanced, _⟩
      · exact ⟨before, line, after, split, unoffending, holds⟩
      · cases malformed.symm.trans unbalanced
    · cases malformed
  · intro first
    exact category_of_firstOffender failed first fun before _ malformed =>
      malformed.exists_offends before

/-- Lines are unbalanced if the first one that cannot follow the lines before it closes what is not
open, or if there is no such line and a loop is left open. -/
theorem category_eq_unbalanced_iff : located.fault.category = .unbalanced ↔
    FirstOffender d lines (SourceLine.IsUnbalanced d) ∨
      Unoffending d lines ∧
        ∃ innermost outer, LeavesOpen (lines.flatMap (SourceLine.markers d)) (innermost :: outer) := by
  constructor
  · intro unbalanced
    rcases ofLines?_eq_error_iff.mp failed with
      ⟨before, line, after, split, unoffending, offends⟩ |
      ⟨unoffending, innermost, outer, leaves, _⟩
    · rcases offends.category with ⟨malformed, _⟩ | ⟨_, holds⟩
      · cases unbalanced.symm.trans malformed
      · exact Or.inl ⟨before, line, after, split, unoffending, holds⟩
    · exact Or.inr ⟨unoffending, innermost, outer, leaves⟩
  · rintro (first | ⟨unoffending, innermost, outer, leaves⟩)
    · exact category_of_firstOffender failed first fun _ _ => SourceLine.IsUnbalanced.exists_offends
    · have same := ofLines?_eq_error_iff.mpr (Or.inr ⟨unoffending, innermost, outer, leaves, rfl⟩)
      rw [failed] at same
      cases same
      rfl

end Categories

end Body

theorem FirstOffence.not_balanced {d : Delimiters} {lines : List SourceLine}
    {located : LocatedFault} (offence : FirstOffence d lines located)
    (single : ∀ line ∈ lines, (line.markers d).length ≤ 1)
    (plural : ∀ line ∈ lines, ∀ marker ∈ line.markers d, marker.opens = true →
      IsPlural marker.name.name) : ¬Balanced (lines.flatMap (SourceLine.markers d)) := by
  rcases offence with ⟨before, line, after, rfl, _, offends⟩
  have member : line ∈ before ++ line :: after := by simp
  -- Where a closing marker does not fit, matching the markers stops.
  have stops : ∀ {marker : Marker} {opened : List Marker}, line.markers d = [marker] →
      LeavesOpen (before.flatMap (SourceLine.markers d)) opened → openAfter? opened marker = none →
      ¬Balanced ((before ++ line :: after).flatMap (SourceLine.markers d)) := by
    intro marker opened only leaves none balanced
    have matched := balanced.foldlM_openAfter? []
    rw [List.flatMap_append, List.foldlM_append, leavesOpen_iff.mp leaves, List.flatMap_cons,
      only] at matched
    simp [none] at matched
  cases offends with
  | crowded several =>
      have short := single line member
      simp [several] at short
  | @singular marker only opens noPlural =>
      exact absurd (plural line member marker (by simp [only]) opens) noPlural
  | stray only closes closed => exact stops only closed (by simp [openAfter?, closes])
  | mismatched only closes opened different =>
      exact stops only opened (by simp [openAfter?, closes, different])

/-! ### Two stacks -/

/-- The markers of the open loops, and the bodies that are begun, with their last statements first;
both innermost first. -/
structure Stacks where
  opened : List Marker
  bodies : List Body

namespace Stacks

/-- No loop is open, and the whole body is begun. -/
def start : Stacks :=
  ⟨[], [.nil]⟩

/-- Nothing can be done without an entry on a stack. -/
def stuck {α : Type} : ExceptT LocatedFault Option α :=
  ExceptT.mk none

/-- Adds a statement to the innermost body. -/
def push (held : Stacks) (statement : Body → Body) : ExceptT LocatedFault Option Stacks :=
  match held.bodies with
  | [] => stuck
  | current :: outer => return ⟨held.opened, statement current :: outer⟩

def add (held : Stacks) : LineClass → ExceptT LocatedFault Option Stacks
  | .text content span => held.push (.text content span)
  | .line content => held.push (.line content)
  | .crowded second => throw ⟨.crowdedLine, second⟩
  | .marker ⟨true, name, span⟩ =>
      match singular? name.name with
      | none => throw ⟨.singularLoop, name.span⟩
      | some _ => return ⟨⟨true, name, span⟩ :: held.opened, .nil :: held.bodies⟩
  | .marker ⟨false, name, span⟩ =>
      match held.opened with
      | [] => throw ⟨.strayClose, span⟩
      | innermost :: outer =>
          if innermost.name.name = name.name then
            match held.bodies with
            | [] => stuck
            | inner :: bodies =>
                let element := (singular? innermost.name.name).getD innermost.name.name
                push ⟨outer, bodies⟩ (.loop innermost.name element inner.reverse)
          else throw ⟨.mismatchedClose innermost.name.name, span⟩

/-- The one body that is left, unless a loop is still open. -/
def finish (held : Stacks) : ExceptT LocatedFault Option Body :=
  match held.opened, held.bodies with
  | innermost :: _, _ => throw ⟨.unclosedLoop, innermost.span⟩
  | [], [whole] => return whole.reverse
  | [], _ => stuck

end Stacks

/-- The body that classified lines make, by way of two stacks. -/
def Body.ofLinesByStacks? (lines : List LineClass) : ExceptT LocatedFault Option Body := do
  let held ← lines.foldlM Stacks.add Stacks.start
  held.finish

namespace Nesting

/-- The same nesting on two stacks. -/
def asStacks (nesting : Nesting) : Stacks :=
  ⟨nesting.opened, nesting.current :: nesting.loops.map OpenLoop.before⟩

/-- The open loops bind the singulars of their relations. -/
def Named (nesting : Nesting) : Prop :=
  ∀ loop ∈ nesting.loops, singular? loop.relation.name = some loop.element

/-- Reading a line on two stacks does the same as reading it, and never gets stuck. -/
theorem Named.add {nesting : Nesting} (named : nesting.Named) (line : LineClass) :
    (nesting.asStacks.add line).run = some ((nesting.add line).map asStacks) ∧
      ∀ after, nesting.add line = .ok after → after.Named := by
  rcases line with ⟨content, span⟩ | content | ⟨opens, name, span⟩ | second
  · refine ⟨rfl, ?_⟩
    rintro after ⟨_⟩
    exact named
  · refine ⟨rfl, ?_⟩
    rintro after ⟨_⟩
    exact named
  · cases opens with
    | true =>
        rcases singular : singular? name.name with _ | element
        · simp only [Stacks.add, Nesting.add, singular]
          exact ⟨rfl, fun _ impossible => by cases impossible⟩
        · simp only [Stacks.add, Nesting.add, singular]
          refine ⟨rfl, ?_⟩
          rintro after ⟨_⟩
          exact List.forall_mem_cons.mpr ⟨singular, named⟩
    | false =>
        rcases nesting with ⟨current, _ | ⟨innermost, outer⟩⟩
        · exact ⟨rfl, fun _ impossible => by cases impossible⟩
        · rcases List.forall_mem_cons.mp named with ⟨singular, others⟩
          by_cases same : innermost.relation.name = name.name
          · simp only [asStacks, opened, List.map_cons, Stacks.add, Nesting.add, if_pos same,
              singular]
            refine ⟨rfl, ?_⟩
            rintro after ⟨_⟩
            exact others
          · simp only [asStacks, opened, List.map_cons, Stacks.add, Nesting.add, if_neg same]
            exact ⟨rfl, fun _ impossible => by cases impossible⟩
  · exact ⟨rfl, fun _ impossible => by cases impossible⟩

theorem Named.run_foldlM {nesting : Nesting} (named : nesting.Named) (lines : List LineClass) :
    (lines.foldlM Stacks.add nesting.asStacks).run =
      some ((lines.foldlM Nesting.add nesting).map asStacks) := by
  induction lines generalizing nesting with
  | nil => rfl
  | cons line rest ih =>
      rcases named.add line with ⟨same, stillNamed⟩
      rw [List.foldlM_cons, List.foldlM_cons, ExceptT.run_bind, same]
      rcases added : nesting.add line with fault | after
      · rfl
      · exact ih (stillNamed after added)

theorem run_finish_stacks (nesting : Nesting) :
    nesting.asStacks.finish.run = some nesting.finish := by
  rcases nesting with ⟨current, _ | ⟨innermost, outer⟩⟩ <;> rfl

end Nesting

theorem Body.run_ofLinesByStacks? (lines : List LineClass) :
    (ofLinesByStacks? lines).run = some (ofLines? lines) := by
  have named : Nesting.start.Named := fun loop member => by cases member
  have same := named.run_foldlM lines
  change (lines.foldlM Stacks.add Stacks.start).run = _ at same
  rw [ofLinesByStacks?, ofLines?, ExceptT.run_bind, same]
  rcases lines.foldlM Nesting.add Nesting.start with fault | nesting
  · rfl
  · exact nesting.run_finish_stacks

namespace Template

variable {d : Delimiters} {source : String} {lines : List SourceLine}

theorem ofSourceLines?_eq_ok_iff {template : Template} :
    ofSourceLines? d source lines = .ok template ↔ template.source = source ∧
      Body.ofLines? (lines.map (LineClass.ofLine d)) = .ok template.body := by
  rcases template with ⟨otherSource, body⟩
  unfold ofSourceLines?
  split
  · rename_i found same
    rw [same]
    simp [eq_comm]
  · rename_i located same
    rw [same]
    simp

theorem ofSourceLines?_eq_error_iff {error : Error} :
    ofSourceLines? d source lines = .error error ↔ ∃ located, error = .ofLocated source located ∧
      Body.ofLines? (lines.map (LineClass.ofLine d)) = .error located := by
  unfold ofSourceLines?
  split
  · rename_i found same
    rw [same]
    simp
  · rename_i located same
    rw [same]
    simp [eq_comm]

/-- Written out again, a compiled body is the lines of its source. -/
theorem forall₂_entries {template : Template}
    (compiled : ofSourceLines? d source lines = .ok template) :
    List.Forall₂ (fun line entry => Entry.OnLine d line entry) lines template.body.entries := by
  rcases Body.exists_behind_of_ofLines? (ofSourceLines?_eq_ok_iff.mp compiled).2 with
    ⟨nesting, reached, noLoops, body⟩
  have entries := reached.entries
  rw [Nesting.entries, noLoops] at entries
  rw [body]
  exact entries

/-- Lines compile exactly if each has one loop marker at most, loops are opened under plurals, and
the markers balance; the body then consists of the lines in their order.  Otherwise the error is that
of the first line that cannot follow the lines before it or, if there is none, that of the innermost
loop left open.  It is of the malformed category exactly if that line has several markers or opens a
loop under no plural, and of the unbalanced one exactly if that line closes what is not the innermost
open loop, or if a loop is left open.  Compiling with two stacks gives the same and never misses an
entry. -/
theorem ofSourceLines?_balanced (d : Delimiters) (source : String) (lines : List SourceLine) :
    ((∃ template, ofSourceLines? d source lines = .ok template) ↔
      (∀ line ∈ lines, (line.markers d).length ≤ 1) ∧
        (∀ line ∈ lines, ∀ marker ∈ line.markers d, marker.opens = true →
          IsPlural marker.name.name) ∧
        Balanced (lines.flatMap (SourceLine.markers d))) ∧
    (∀ template, ofSourceLines? d source lines = .ok template →
      List.Forall₂ (fun line entry => Entry.OnLine d line entry) lines template.body.entries) ∧
    (∀ error, ofSourceLines? d source lines = .error error ↔
      ∃ located, error = .ofLocated source located ∧
        (FirstOffence d lines located ∨ Unoffending d lines ∧ Unclosed d lines located)) ∧
    (∀ error, ofSourceLines? d source lines = .error error →
      (error.fault.category = .malformed ↔
        FirstOffender d lines fun _ line => line.IsMalformed d) ∧
      (error.fault.category = .unbalanced ↔
        FirstOffender d lines (SourceLine.IsUnbalanced d) ∨
          Unoffending d lines ∧ ∃ innermost outer,
            LeavesOpen (lines.flatMap (SourceLine.markers d)) (innermost :: outer))) ∧
    (Body.ofLinesByStacks? (lines.map (LineClass.ofLine d))).run =
      some (Body.ofLines? (lines.map (LineClass.ofLine d))) := by
  refine ⟨⟨?_, ?_⟩, fun _ => forall₂_entries, ?_, ?_, Body.run_ofLinesByStacks? _⟩
  · rintro ⟨template, compiled⟩
    rcases Body.exists_behind_of_ofLines? (ofSourceLines?_eq_ok_iff.mp compiled).2 with
      ⟨nesting, reached, noLoops, _⟩
    have leaves := reached.leaves
    rw [Nesting.opened, noLoops] at leaves
    exact ⟨reached.single, reached.plural, leavesOpen_nil_iff.mp leaves⟩
  · rintro ⟨single, plural, balanced⟩
    rcases compiled : ofSourceLines? d source lines with error | template
    · rcases ofSourceLines?_eq_error_iff.mp compiled with ⟨located, _, failed⟩
      rcases Body.ofLines?_eq_error_iff.mp failed with offence | ⟨_, innermost, outer, leaves, _⟩
      · exact absurd balanced (offence.not_balanced single plural)
      · cases leaves.unique (.none balanced)
    · exact ⟨template, rfl⟩
  · intro error
    simp only [ofSourceLines?_eq_error_iff, Body.ofLines?_eq_error_iff]
  · intro error uncompiled
    rcases ofSourceLines?_eq_error_iff.mp uncompiled with ⟨located, rfl, failed⟩
    exact ⟨Body.category_eq_malformed_iff failed, Body.category_eq_unbalanced_iff failed⟩

end Template

end GraphTemplate
