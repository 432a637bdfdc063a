import GraphTemplate.Proofs.Template.Likeness
import GraphTemplate.Proofs.Template.Loops
import GraphTemplate.Proofs.Template.TagGrammar
import GraphTemplate.Template.Compile

/-!
# Placement of lines

What a line of a source is does not depend on where the line stands: only the spans move along.  So
the same lines make alike bodies by themselves and inside a loop, and a loop around them can be
compiled whenever they can.
-/

namespace GraphTemplate

/-- Wherever it is. -/
def Span.Anywhere (_ _ : Span) : Prop :=
  True

/-- The lines are the same at any places. -/
inductive LineClass.Alike : LineClass → LineClass → Prop where
  | text (content : String) (span otherSpan : Span) :
      Alike (.text content span) (.text content otherSpan)
  | line {content other : Line} (same : Line.Alike Span.Anywhere content other) :
      Alike (.line content) (.line other)
  | marker (opens : Bool) {name otherName : Ident} (same : name.name = otherName.name)
      (span otherSpan : Span) :
      Alike (.marker ⟨opens, name, span⟩) (.marker ⟨opens, otherName, otherSpan⟩)
  | crowded (second otherSecond : Span) : Alike (.crowded second) (.crowded otherSecond)

/-- Markers with the same effect. -/
def Marker.Alike (marker other : Marker) : Prop :=
  marker.opens = other.opens ∧ marker.name.name = other.name.name

namespace Lexeme

theorem forall₂_place (d : Delimiters) (tokens : List Token) (start otherStart : Nat) :
    List.Forall₂ (fun lexeme other => lexeme.token = other.token) (place d start tokens)
      (place d otherStart tokens) := by
  induction tokens generalizing start otherStart with
  | nil => exact .nil
  | cons token rest ih => exact .cons rfl (ih _ _)

variable {d : Delimiters} {lexeme other : Lexeme}

theorem marker?_alike (same : lexeme.token = other.token) :
    Option.Rel Marker.Alike (marker? d lexeme) (marker? d other) := by
  rcases lexeme with ⟨token, span⟩
  cases same
  rcases other with ⟨text | root | name | name, otherSpan⟩
  · exact .none
  · exact .none
  · exact .some ⟨rfl, rfl⟩
  · exact .some ⟨rfl, rfl⟩

theorem placePath_alike (path : List String) (start otherStart : Nat) :
    List.Forall₂ (Ident.Alike Span.Anywhere) (Ident.placePath start path)
      (Ident.placePath otherStart path) := by
  induction path generalizing start otherStart with
  | nil => exact .nil
  | cons name rest ih => exact .cons ⟨rfl, trivial⟩ (ih _ _)

theorem part?_alike (same : lexeme.token = other.token) :
    Option.Rel (Part.Alike Span.Anywhere) (part? d lexeme) (part? d other) := by
  rcases lexeme with ⟨token, span⟩
  cases same
  rcases other with ⟨text | ⟨root, path⟩ | name | name, otherSpan⟩
  · exact .some (.text _)
  · exact .some (.placeholder ⟨⟨rfl, trivial⟩, placePath_alike path _ _, trivial⟩)
  · exact .none
  · exact .none

end Lexeme

theorem Line.Alike.isEmpty_placeholders {spans : Span → Span → Prop} {line other : Line}
    (alike : Line.Alike spans line other) :
    line.placeholders.isEmpty = other.placeholders.isEmpty := by
  unfold Line.placeholders
  unfold Line.Alike at alike
  generalize line.parts = parts, other.parts = otherParts at alike
  induction alike with
  | nil => rfl
  | cons first _ ih =>
      cases first with
      | text content => exact ih
      | placeholder same => rfl

namespace LineClass

theorem alike_ofLine (d : Delimiters) (text : List Char) (start otherStart : Nat) :
    Alike (ofLine d ⟨start, text⟩) (ofLine d ⟨otherStart, text⟩) := by
  have lexemes : List.Forall₂ (fun lexeme other => lexeme.token = other.token)
      (Lexeme.ofLine d start text) (Lexeme.ofLine d otherStart text) :=
    Lexeme.forall₂_place d (Token.scan d text) start otherStart
  unfold ofLine
  dsimp only
  generalize Lexeme.ofLine d start text = placed, Lexeme.ofLine d otherStart text = otherPlaced
    at lexemes
  have markers : List.Forall₂ Marker.Alike (placed.filterMap (Lexeme.marker? d))
      (otherPlaced.filterMap (Lexeme.marker? d)) :=
    List.rel_filterMap (fun _ _ same => Lexeme.marker?_alike same) lexemes
  have parts : Line.Alike Span.Anywhere
      ⟨placed.filterMap (Lexeme.part? d), (⟨start, text⟩ : SourceLine).span⟩
      ⟨otherPlaced.filterMap (Lexeme.part? d), (⟨otherStart, text⟩ : SourceLine).span⟩ :=
    List.rel_filterMap (fun _ _ same => Lexeme.part?_alike same) lexemes
  generalize placed.filterMap (Lexeme.marker? d) = found,
    otherPlaced.filterMap (Lexeme.marker? d) = otherFound at markers
  rcases markers with _ | @⟨⟨opens, name, span⟩, ⟨_, otherName, otherSpan⟩, _, _, same, _ | _⟩
  · simp only [parts.isEmpty_placeholders]
    split
    · exact .text _ _ _
    · exact .line parts
  · cases same.1
    exact .marker opens same.2 span otherSpan
  · exact .crowded _ _

theorem forall₂_place (d : Delimiters) (gap : Nat) (texts : List (List Char))
    (start otherStart : Nat) :
    List.Forall₂ Alike ((SourceLine.place gap start texts).map (ofLine d))
      ((SourceLine.place gap otherStart texts).map (ofLine d)) := by
  induction texts generalizing start otherStart with
  | nil => exact .nil
  | cons text rest ih => exact .cons (alike_ofLine d text _ _) (ih _ _)

/-- The line has placeholders and no loop marker. -/
def IsLine (d : Delimiters) (line : String) : Prop :=
  ∃ content, ofLine d ⟨0, line.toList⟩ = .line content

/-- The line is the marker that opens or closes a loop over a relation. -/
def IsMarker (d : Delimiters) (opens : Bool) (relation line : String) : Prop :=
  ∃ name span, ofLine d ⟨0, line.toList⟩ = .marker ⟨opens, name, span⟩ ∧ name.name = relation

theorem IsMarker.anywhere {d : Delimiters} {opens : Bool} {relation line : String}
    (isMarker : IsMarker d opens relation line) (start : Nat) :
    ∃ name span, ofLine d ⟨start, line.toList⟩ = .marker ⟨opens, name, span⟩ ∧
      name.name = relation := by
  rcases isMarker with ⟨name, span, same, rfl⟩
  have alike := alike_ofLine d line.toList 0 start
  rw [same] at alike
  generalize ofLine d ⟨start, line.toList⟩ = other at alike ⊢
  cases alike with
  | marker _ nameSame _ otherSpan => exact ⟨_, otherSpan, rfl, nameSame.symm⟩

theorem IsLine.anywhere {d : Delimiters} {line : String} (isLine : IsLine d line) (start : Nat) :
    ∃ content, ofLine d ⟨start, line.toList⟩ = .line content := by
  rcases isLine with ⟨content, same⟩
  have alike := alike_ofLine d line.toList 0 start
  rw [same] at alike
  generalize ofLine d ⟨start, line.toList⟩ = other at alike ⊢
  cases alike with
  | line _ => exact ⟨_, rfl⟩

theorem exists_contents {d : Delimiters} {lines : List String}
    (areLines : ∀ line ∈ lines, IsLine d line) (gap start : Nat) :
    ∃ contents : List Line,
      (SourceLine.place gap start (lines.map String.toList)).map (ofLine d) =
        contents.map LineClass.line := by
  induction lines generalizing start with
  | nil => exact ⟨[], rfl⟩
  | cons text rest ih =>
      rcases (areLines text List.mem_cons_self).anywhere start with ⟨content, same⟩
      rcases ih (fun line member => areLines line (List.mem_cons_of_mem _ member))
        (start + Text.byteLength text.toList + gap) with ⟨contents, others⟩
      refine ⟨content :: contents, ?_⟩
      rw [List.map_cons, SourceLine.place, List.map_cons, same, others, List.map_cons]

end LineClass

theorem SourceLine.length_place (gap start : Nat) (lines : List (List Char)) :
    (place gap start lines).length = lines.length := by
  induction lines generalizing start with
  | nil => rfl
  | cons text rest ih => rw [place, List.length_cons, List.length_cons, ih]

theorem SourceLine.exists_place_append (gap start : Nat) (front back : List (List Char)) :
    ∃ later, place gap start (front ++ back) = place gap start front ++ place gap later back := by
  induction front generalizing start with
  | nil => exact ⟨start, rfl⟩
  | cons text rest ih =>
      rcases ih (start + Text.byteLength text + gap) with ⟨later, same⟩
      refine ⟨later, ?_⟩
      rw [List.cons_append, place, same]
      rfl

namespace Body

/-- The body that consists of lines. -/
def ofRun (lines : List Line) : Body :=
  lines.foldr line nil

/-- The lines with placeholders outside the loops of a body. -/
def lines : Body → List Line
  | nil => []
  | text _ _ rest => rest.lines
  | line content rest => content :: rest.lines
  | loop _ _ _ rest => rest.lines

@[simp]
theorem lines_ofRun (contents : List Line) : (ofRun contents).lines = contents := by
  induction contents with
  | nil => rfl
  | cons content rest ih => exact congrArg (content :: ·) ih

theorem reverseOnto_foldl (lines : List Line) (body done : Body) :
    (lines.foldl (fun before content => line content before) body).reverseOnto done =
      body.reverseOnto (lines.foldr line done) := by
  induction lines generalizing body with
  | nil => rfl
  | cons content rest ih => exact ih (line content body)

theorem foldlM_add_lines (lines : List Line) (nesting : Nesting) :
    (lines.map LineClass.line).foldlM Nesting.add nesting =
      .ok { nesting with
        current := lines.foldl (fun before content => line content before) nesting.current } := by
  induction lines generalizing nesting with
  | nil => rfl
  | cons content rest ih =>
      rw [List.map_cons, List.foldlM_cons]
      exact ih { nesting with current := line content nesting.current }

theorem ofLines?_lines (lines : List Line) :
    ofLines? (lines.map LineClass.line) = .ok (ofRun lines) := by
  rw [ofLines?, foldlM_add_lines]
  exact congrArg Except.ok (reverseOnto_foldl lines nil nil)

/-- Lines between the markers of a loop are the body of the loop. -/
theorem ofLines?_enclosed {name otherName : Ident} {element : String} (span otherSpan : Span)
    (lines : List Line) (singular : singular? name.name = some element)
    (same : name.name = otherName.name) :
    ofLines? (.marker ⟨true, name, span⟩ :: lines.map LineClass.line ++
        [.marker ⟨false, otherName, otherSpan⟩]) =
      .ok (loop name element (ofRun lines) nil) := by
  have opened : Nesting.start.add (.marker ⟨true, name, span⟩) =
      .ok ⟨nil, [⟨name, element, span, nil⟩]⟩ := by
    simp only [Nesting.add, singular]
    rfl
  have closed : ∀ current : Body, Nesting.add ⟨current, [⟨name, element, span, nil⟩]⟩
      (.marker ⟨false, otherName, otherSpan⟩) = .ok ⟨loop name element current.reverse nil, []⟩ := by
    intro current
    simp only [Nesting.add, same, if_true]
  rw [ofLines?, List.cons_append, List.foldlM_cons, opened]
  simp only [Bind.bind, Except.bind, List.foldlM_append, foldlM_add_lines, List.foldlM_cons, closed,
    List.foldlM_nil, pure, Except.pure]
  exact congrArg (fun inner => Except.ok (loop name element inner nil))
    (reverseOnto_foldl lines nil nil)

end Body

theorem singular?_plural {name : String} (nonempty : name ≠ "") :
    singular? (plural name) = some name := by
  have stem : name.toList ≠ [] := by simpa using nonempty
  simp [singular?, plural, stem]

theorem Token.exists_read {d : Delimiters} {text : List Char} {content : Tag}
    (member : tag content ∈ scan d text) :
    ∃ here rest, Tag.read d here = some (content, rest) := by
  fun_induction scan d text with
  | case1 => cases member
  | case2 c later first rest read ih =>
      rcases List.mem_cons.mp member with same | behind
      · cases same
        exact ⟨_, _, read⟩
      · exact ih behind
  | case3 c later unread ih =>
      apply ih
      generalize scan d later = tokens at member
      rcases tokens with _ | ⟨first | first, more⟩
      · simp [consRaw] at member
      · simpa [consRaw] using member
      · simpa [consRaw] using member

theorem Lexeme.token_mem_of_mem_place {d : Delimiters} {tokens : List Token} {start : Nat}
    {lexeme : Lexeme} (member : lexeme ∈ place d start tokens) : lexeme.token ∈ tokens := by
  induction tokens generalizing start with
  | nil => cases member
  | cons token rest ih =>
      rcases List.mem_cons.mp member with rfl | behind
      · exact List.mem_cons_self
      · exact List.mem_cons_of_mem _ (ih behind)

/-- The first name of a placeholder is an identifier. -/
theorem LineClass.isIdentifier_of_mem_roots {d : Delimiters} {source : SourceLine} {content : Line}
    {name : String} (same : ofLine d source = .line content) (member : name ∈ content.roots) :
    Text.IsIdentifier name.toList := by
  have parts : content.parts =
      (Lexeme.ofLine d source.start source.text).filterMap (Lexeme.part? d) := by
    unfold ofLine at same
    dsimp only at same
    split at same
    · cases same
    · cases same
    · split at same
      · cases same
      · cases same
        rfl
  rcases List.mem_map.mp member with ⟨placeholder, placeholderMem, rfl⟩
  rcases List.mem_filterMap.mp placeholderMem with ⟨part, partMem, isPlaceholder⟩
  cases part with
  | text content => cases isPlaceholder
  | placeholder found =>
      cases isPlaceholder
      rw [parts] at partMem
      rcases List.mem_filterMap.mp partMem with ⟨⟨token, span⟩, lexemeMem, isPart⟩
      rcases token with text | ⟨root, path⟩ | opened | closed
      · cases isPart
      · cases isPart
        rcases Token.exists_read (Lexeme.token_mem_of_mem_place lexemeMem) with ⟨_, _, read⟩
        exact Tag.isProper_of_read read root List.mem_cons_self
      · cases isPart
      · cases isPart

namespace Template

variable {d : Delimiters} {lines : List String} {template : Template}

theorem body_of_lines (compiled : ofLines? d lines = .ok template)
    (areLines : ∀ line ∈ lines, LineClass.IsLine d line) :
    (SourceLine.place 1 0 (lines.map String.toList)).map (LineClass.ofLine d) =
        template.body.lines.map LineClass.line ∧
      template.body = Body.ofRun template.body.lines := by
  rcases LineClass.exists_contents areLines 1 0 with ⟨contents, classes⟩
  rw [ofLines?, ofSourceLines?, classes, Body.ofLines?_lines] at compiled
  cases compiled
  rw [Body.lines_ofRun]
  exact ⟨classes, rfl⟩

/-- Compiled lines can be enclosed in a loop over a relation whose elements they name. -/
theorem exists_enclosed {opening closing name : String} (compiled : ofLines? d lines = .ok template)
    (areLines : ∀ line ∈ lines, LineClass.IsLine d line)
    (opens : LineClass.IsMarker d true (plural name) opening)
    (closes : LineClass.IsMarker d false (plural name) closing)
    (mentioned : ∃ line ∈ template.body.lines, name ∈ line.roots) :
    ∃ enclosed relation contents, ofLines? d (opening :: lines ++ [closing]) = .ok enclosed ∧
      enclosed.body = .loop relation name (Body.ofRun contents) .nil ∧ relation.name = plural name ∧
      List.Forall₂ (Line.Alike Span.Anywhere) template.body.lines contents := by
  rcases body_of_lines compiled areLines with ⟨classes, _⟩
  have nonempty : name ≠ "" := by
    rcases mentioned with ⟨line, lineMem, rootMem⟩
    have classMem := List.mem_map_of_mem (f := LineClass.line) lineMem
    rw [← classes] at classMem
    rcases List.mem_map.mp classMem with ⟨source, _, same⟩
    rintro rfl
    exact LineClass.isIdentifier_of_mem_roots same rootMem
  let start := 0 + Text.byteLength opening.toList + 1
  rcases SourceLine.exists_place_append 1 start (lines.map String.toList) [closing.toList] with
    ⟨later, apart⟩
  rcases opens.anywhere 0 with ⟨relation, span, opened, relationName⟩
  rcases closes.anywhere later with ⟨closedName, closedSpan, closed, closedSame⟩
  rcases LineClass.exists_contents areLines 1 start with ⟨contents, inside⟩
  have whole : (SourceLine.place 1 0 ((opening :: lines ++ [closing]).map String.toList)).map
        (LineClass.ofLine d) = .marker ⟨true, relation, span⟩ :: contents.map LineClass.line ++
          [.marker ⟨false, closedName, closedSpan⟩] := by
    rw [List.cons_append, List.map_cons, List.map_append, SourceLine.place, List.map_cons, opened]
    simp only [List.map_cons, List.map_nil, List.cons_append]
    rw [apart, List.map_append, inside, SourceLine.place, List.map_cons, closed]
    rfl
  have body := Body.ofLines?_enclosed span closedSpan contents
    (relationName ▸ singular?_plural nonempty) (relationName.trans closedSame.symm)
  rw [← whole] at body
  refine ⟨⟨"\n".intercalate (opening :: lines ++ [closing]), _⟩, relation, contents, ?_, rfl,
    relationName, ?_⟩
  · rw [ofLines?, ofSourceLines?, body]
  · have alike := LineClass.forall₂_place d 1 (lines.map String.toList) 0 start
    rw [classes, inside, List.forall₂_map_left_iff, List.forall₂_map_right_iff] at alike
    exact alike.imp fun _ _ same => by
      cases same
      assumption

end Template

end GraphTemplate
