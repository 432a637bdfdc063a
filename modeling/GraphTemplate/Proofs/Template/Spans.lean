import GraphTemplate.Proofs.Template.Balance
import GraphTemplate.Proofs.Template.Tiling

/-!
# Spans of compiled templates

The spans that a compiled template keeps for its placeholders, its loops and the names on them, and
those at which lines fail to compile, are spans of tags of the source and of names on these tags.
-/

namespace GraphTemplate

/-- The bytes of a placeholder and of the names on it. -/
def Placeholder.spans (placeholder : Placeholder) : List Span :=
  placeholder.span :: placeholder.root.span :: placeholder.path.map Ident.span

/-- The bytes of the placeholders of a line and of the names on them. -/
def Line.spans (line : Line) : List Span :=
  line.placeholders.flatMap Placeholder.spans

/-- The bytes of the placeholders and loop names of a body, and of the names on the placeholders. -/
def Body.spans : Body → List Span
  | nil => []
  | text _ _ rest => rest.spans
  | line content rest => content.spans ++ rest.spans
  | loop relation _ inner rest => relation.span :: inner.spans ++ rest.spans

def Entry.spans : Entry → List Span
  | text _ _ => []
  | line content => content.spans
  | opening relation => [relation.span]
  | closing _ => []

theorem Body.flatMap_spans_entries (body : Body) :
    body.entries.flatMap Entry.spans = body.spans := by
  induction body with
  | nil => rfl
  | text content span rest ih => simp [entries, spans, Entry.spans, ih]
  | line content rest ih => simp [entries, spans, Entry.spans, ih]
  | loop relation element inner rest innerIh restIh =>
      simp [entries, spans, Entry.spans, innerIh, restIh]

/-- The span is that of a tag on the line or of a name on the tag. -/
def SourceLine.Tags (d : Delimiters) (line : SourceLine) (span : Span) : Prop :=
  ∃ lexeme ∈ Lexeme.ofLine d line.start line.text, span ∈ lexeme.spans d

theorem Lexeme.spans_of_marker? {d : Delimiters} {lexeme : Lexeme} {marker : Marker}
    (isMarker : lexeme.marker? d = some marker) :
    lexeme.spans d = [marker.span, marker.name.span] := by
  rcases lexeme with ⟨text | root | name | name, span⟩
  · cases isMarker
  · cases isMarker
  · cases isMarker
    rfl
  · cases isMarker
    rfl

theorem Lexeme.spans_of_part? {d : Delimiters} {lexeme : Lexeme} {placeholder : Placeholder}
    (isPart : lexeme.part? d = some (.placeholder placeholder)) :
    lexeme.spans d = placeholder.spans := by
  rcases lexeme with ⟨text | ⟨root, path⟩ | name | name, span⟩
  · cases isPart
  · cases isPart
    rfl
  · cases isPart
  · cases isPart

namespace SourceLine

variable {d : Delimiters} {line : SourceLine} {span : Span}

theorem tags_of_mem_markers {marker : Marker} (member : marker ∈ line.markers d) :
    line.Tags d marker.span ∧ line.Tags d marker.name.span := by
  rcases List.mem_filterMap.mp member with ⟨lexeme, lexemeMem, isMarker⟩
  have spans := Lexeme.spans_of_marker? isMarker
  exact ⟨⟨lexeme, lexemeMem, by simp [spans]⟩, ⟨lexeme, lexemeMem, by simp [spans]⟩⟩

theorem tags_of_mem_spans {entry : Entry} (onLine : Entry.OnLine d line entry)
    (member : span ∈ entry.spans) : line.Tags d span := by
  cases onLine with
  | text => cases member
  | line =>
      rcases List.mem_flatMap.mp member with ⟨placeholder, placeholderMem, inside⟩
      rcases List.mem_filterMap.mp placeholderMem with ⟨part, partMem, isPlaceholder⟩
      rcases List.mem_filterMap.mp partMem with ⟨lexeme, lexemeMem, isPart⟩
      cases part with
      | text content => cases isPlaceholder
      | placeholder content =>
          cases isPlaceholder
          exact ⟨lexeme, lexemeMem, Lexeme.spans_of_part? isPart ▸ inside⟩
  | @opening marker only =>
      rw [List.mem_singleton.mp member]
      exact (tags_of_mem_markers (by simp [only])).2
  | closing => cases member

theorem Tags.within (tags : line.Tags d span) : span.Within line.start line.text := by
  rcases tags with ⟨lexeme, member, inside⟩
  exact Lexeme.within_of_mem_spans member inside

end SourceLine

theorem exists_of_mem_right {α β : Type} {related : α → β → Prop} {left : List α} {right : List β}
    (each : List.Forall₂ related left right) {item : β} (member : item ∈ right) :
    ∃ other ∈ left, related other item := by
  induction each with
  | nil => cases member
  | cons first _ ih =>
      rcases List.mem_cons.mp member with rfl | later
      · exact ⟨_, List.mem_cons_self, first⟩
      · rcases ih later with ⟨other, otherMem, same⟩
        exact ⟨other, List.mem_cons_of_mem _ otherMem, same⟩

namespace Template

variable {d : Delimiters} {source : String} {lines : List SourceLine}

/-- Whatever place in a compiled template is kept is that of a tag of its source or of a name. -/
theorem exists_tags_of_mem_spans {template : Template} {span : Span}
    (compiled : ofSourceLines? d source lines = .ok template)
    (member : span ∈ template.body.spans) :
    ∃ line ∈ lines, line.Tags d span := by
  have entries := forall₂_entries compiled
  rw [← Body.flatMap_spans_entries] at member
  rcases List.mem_flatMap.mp member with ⟨entry, entryMem, inside⟩
  rcases exists_of_mem_right entries entryMem with ⟨line, lineMem, onLine⟩
  exact ⟨line, lineMem, SourceLine.tags_of_mem_spans onLine inside⟩

/-- Lines fail to compile at a loop marker, or at its name. -/
theorem exists_marker_of_eq_error {located : LocatedFault}
    (failed : Body.ofLines? (lines.map (LineClass.ofLine d)) = .error located) :
    (located.fault.category = .malformed ∨ located.fault.category = .unbalanced) ∧
      ∃ line ∈ lines, ∃ marker ∈ line.markers d,
        located.span = marker.span ∨ located.span = marker.name.span := by
  rcases Body.ofLines?_eq_error_iff.mp failed with ⟨before, line, after, rfl, _, offends⟩ | unclosed
  · refine ⟨offends.category.imp And.left And.left, line, by simp, ?_⟩
    cases offends with
    | crowded several => exact ⟨_, by simp [several], Or.inl rfl⟩
    | singular only => exact ⟨_, by simp [only], Or.inr rfl⟩
    | stray only => exact ⟨_, by simp [only], Or.inl rfl⟩
    | mismatched only => exact ⟨_, by simp [only], Or.inl rfl⟩
  · rcases unclosed with ⟨_, innermost, outer, leaves, rfl⟩
    rcases List.mem_flatMap.mp (leaves.mem List.mem_cons_self) with ⟨line, lineMem, markerMem⟩
    exact ⟨Or.inr rfl, line, lineMem, innermost, markerMem, Or.inl rfl⟩

theorem exists_tags_of_eq_error {located : LocatedFault}
    (failed : Body.ofLines? (lines.map (LineClass.ofLine d)) = .error located) :
    (located.fault.category = .malformed ∨ located.fault.category = .unbalanced) ∧
      ∃ line ∈ lines, line.Tags d located.span := by
  rcases exists_marker_of_eq_error failed with ⟨category, line, lineMem, marker, markerMem, place⟩
  refine ⟨category, line, lineMem, ?_⟩
  rcases place with whole | named
  · rw [whole]
    exact (SourceLine.tags_of_mem_markers markerMem).1
  · rw [named]
    exact (SourceLine.tags_of_mem_markers markerMem).2

/-- Lines without loop markers compile. -/
theorem exists_ok_of_unmarked (source : String) (unmarked : ∀ line ∈ lines, line.markers d = []) :
    ∃ template, ofSourceLines? d source lines = .ok template := by
  rcases compiled : ofSourceLines? d source lines with error | template
  · rcases ofSourceLines?_eq_error_iff.mp compiled with ⟨located, _, failed⟩
    rcases exists_marker_of_eq_error failed with ⟨_, line, lineMem, marker, markerMem, _⟩
    rw [unmarked line lineMem] at markerMem
    cases markerMem
  · exact ⟨template, rfl⟩

end Template

end GraphTemplate
