import GraphTemplate.Engine
import GraphTemplate.Proofs.Expansion.Invariant
import GraphTemplate.Proofs.Expansion.Substitution
import GraphTemplate.Proofs.Template.Spans
import GraphTemplate.Proofs.Uniformity

/-!
# Faults in templates

Everything that can go wrong with a template is reported at a tag of its source or at a name on one.
A template that does not compile has a marker that fits nowhere.  An expansion fails at a
placeholder or a loop of the body: a name there stands for nothing or for several things, it leads
nowhere, or what it leads to has no text.
-/

namespace GraphTemplate

/-- The faults of an expansion.  Those that name colliding owners name two at least. -/
structure Fault.OfExpansion (fault : Fault) : Prop where
  category : fault.category ∈ [.unresolved, .ambiguous, .attribute, .unrenderable]
  collides : fault.category = .ambiguous → 2 ≤ fault.candidates.length

theorem Fault.ofExpansion_of_attribute {fault : Fault} (category : fault.category = .attribute) :
    fault.OfExpansion :=
  ⟨by simp [category], by simp [category]⟩

theorem Fault.IsCollision.ofExpansion {fault : Fault} (collision : fault.IsCollision) :
    fault.OfExpansion :=
  ⟨by simp [collision.1], fun _ => collision.2⟩

theorem Fault.ofExpansion_unresolvedName (name plural : String) :
    (unresolvedName name plural).OfExpansion :=
  ⟨by simp [Fault.category], by simp [Fault.category]⟩

/-- Only faults of ambiguity name owners that collide. -/
theorem Fault.category_of_candidates {fault : Fault} (named : fault.candidates ≠ []) :
    fault.category = .ambiguous := by
  cases fault <;> simp_all [candidates, category]

/-! ### Searching and walking -/

theorem isCollision_of_findAttribute? {candidates : List (String × Object)} {name : String}
    {fault : Fault} (failed : findAttribute? candidates name = .error fault) :
    fault.IsCollision := by
  unfold findAttribute? at failed
  split at failed
  · cases failed
  · cases failed
  · rename_i owners notNone notOne
    cases failed
    generalize List.map Prod.fst _ = names at notNone notOne
    rcases names with _ | ⟨first, _ | ⟨second, more⟩⟩
    · exact absurd rfl notNone
    · exact absurd rfl (notOne first)
    · exact ⟨rfl, by simp [Fault.candidates]⟩

theorem isCollision_of_findRelation? {candidates : List (String × Object)} {name : String}
    {fault : Fault} (failed : findRelation? candidates name = .error fault) :
    fault.IsCollision := by
  rw [findRelation?_eq_searchLevel] at failed
  exact isCollision_of_searchLevel_eq_error failed

namespace Scope

theorem meets_relationRoute? (scope : Scope) (name : String) :
    Except.Meets Fault.OfExpansion (fun _ => True) (scope.relationRoute? name) := by
  have searches : ∀ candidates : List (String × Object),
      Except.Meets Fault.OfExpansion (fun _ => True) (findRelation? candidates name) :=
    fun candidates => .of_errors fun _ failed => (isCollision_of_findRelation? failed).ofExpansion
  rw [relationRoute?_eq]
  apply (searches _).bind
  rintro (_ | route) _
  · exact searches _
  · trivial

theorem meets_discover (scope : Scope) (name : String) :
    Except.Meets Fault.OfExpansion (fun _ => True) (scope.discover name) := by
  have attributes : Except.Meets Fault.OfExpansion (fun _ => True)
      (findAttribute? scope.candidates name) :=
    .of_errors fun _ failed => (isCollision_of_findAttribute? failed).ofExpansion
  unfold discover
  apply (scope.meets_relationRoute? name).bind
  rintro (_ | route) _
  · apply attributes.bind
    rintro (_ | route) _
    · exact Fault.ofExpansion_unresolvedName name (plural name)
    · trivial
  · trivial

theorem meets_owner (scope : Scope) (route : Route) :
    Except.Meets Fault.OfExpansion (fun _ => True) (scope.owner route) := by
  unfold owner
  split
  · trivial
  · exact Fault.ofExpansion_unresolvedName _ _

end Scope

theorem Resolver.keeps_remembering (scope : Scope) (name : String) :
    Keeps (fun _ => True) Fault.OfExpansion (fun _ => True) (remembering.find scope name) := by
  intro memory _
  refine ⟨?_, trivial⟩
  have meets := scope.meets_discover name
  rcases known : memory.lookup (scope.question name) with _ | finding
  · rcases found : scope.discover name with fault | finding
    · rw [find_failed known found]
      rwa [found] at meets
    · rw [find_discovered known found]
      trivial
  · rw [find_remembered known]
    trivial

theorem Object.meets_reach (chain : List String) (o : Object) :
    ∀ item ∈ o.reach chain, Except.Meets Fault.OfExpansion (fun _ => True) item := by
  induction chain generalizing o with
  | nil =>
      intro item member
      rw [List.mem_singleton.mp member]
      trivial
  | cons name rest ih =>
      intro item member
      rw [reach] at member
      split at member
      · rcases List.mem_flatMap.mp member with ⟨element, _, inside⟩
        exact ih element item inside
      · exact ih _ item member
      · split at member
        · rw [List.mem_singleton.mp member]
          trivial
        · rw [List.mem_singleton.mp member]
          exact Fault.ofExpansion_of_attribute rfl
      · rw [List.mem_singleton.mp member]
        exact Fault.ofExpansion_of_attribute rfl

theorem Node.meets_element {item : Except Fault Node}
    (meets : Except.Meets Fault.OfExpansion (fun _ => True) item) :
    Except.Meets Fault.OfExpansion (fun _ => True) (element item) := by
  rcases item with fault | (content | content)
  · exact meets
  · trivial
  · exact Fault.ofExpansion_of_attribute rfl

theorem Scope.meets_elements (scope : Scope) (route : Route) :
    Except.Meets Fault.OfExpansion (fun _ => True) (scope.elements route) := by
  unfold elements
  apply (scope.meets_owner route).bind
  intro owner _
  have each : ∀ item ∈ (owner.reach route.steps).map Node.element,
      Except.Meets Fault.OfExpansion (fun _ => True) item := by
    rw [List.forall_mem_map]
    exact fun item member => Node.meets_element (Object.meets_reach _ _ item member)
  exact (Except.Meets.allOrError each).mono (fun _ holds => holds) fun _ _ => trivial

/-! ### Expanding -/

/-- A fault of an expansion at one of the given places. -/
structure LocatedFault.At (spans : List Span) (located : LocatedFault) : Prop where
  fault : located.fault.OfExpansion
  span : located.span ∈ spans

theorem Except.Meets.among {α : Type} {spans others : List Span} {values : α → Prop}
    {result : Except LocatedFault α} (meets : Meets (LocatedFault.At spans) values result)
    (inside : spans ⊆ others) : Meets (LocatedFault.At others) values result :=
  meets.mono (fun _ holds => ⟨holds.fault, inside holds.span⟩) fun _ holds => holds

theorem Keeps.among {σ α : Type} {states : σ → Prop} {spans others : List Span} {values : α → Prop}
    {step : Expansion σ α} (keeps : Keeps states (LocatedFault.At spans) values step)
    (inside : spans ⊆ others) : Keeps states (LocatedFault.At others) values step :=
  keeps.mono (fun _ holds => ⟨holds.fault, inside holds.span⟩) fun _ holds => holds

theorem Object.meets_follow (idents : List Ident) (o : Object) :
    Except.Meets (LocatedFault.At (idents.map Ident.span)) (fun _ => True) (o.follow idents) := by
  induction idents generalizing o with
  | nil => trivial
  | cons ident rest ih =>
      unfold follow
      split
      · exact ⟨Fault.ofExpansion_of_attribute rfl, List.mem_cons_self⟩
      · trivial
      · exact (ih _).among (List.subset_cons_self _ _)
      · exact ⟨Fault.ofExpansion_of_attribute rfl, List.mem_cons_of_mem _ List.mem_cons_self⟩

theorem Anchor.meets_text (anchor : Anchor) :
    Except.Meets (LocatedFault.At anchor.placeholder.spans) (fun _ => True) anchor.text := by
  unfold text
  -- Names that were discovered have no bytes of their own; their faults lie at the placeholder.
  have onPlaceholder : ((anchor.steps.map fun name => Ident.mk name anchor.placeholder.span) ++
      anchor.placeholder.path).map Ident.span ⊆ anchor.placeholder.spans := by
    intro span member
    rw [List.map_append, List.map_map, List.mem_append] at member
    rcases member with discovered | written
    · rcases List.mem_map.mp discovered with ⟨name, _, rfl⟩
      exact List.mem_cons_self
    · exact List.mem_cons_of_mem _ (List.mem_cons_of_mem _ written)
  apply ((Object.meets_follow _ _).among onPlaceholder).bind
  intro attr _
  split
  · trivial
  · exact ⟨⟨by simp [Fault.category], by simp [Fault.category]⟩, List.mem_cons_self⟩

namespace Standing

/-- The standing is that of a part of the line. -/
def OfLine {scope : Scope} {line : Line} : Standing scope line → Prop
  | text _ => True
  | anchored anchor => anchor.placeholder ∈ line.placeholders
  | unbound driver => ∃ placeholder ∈ line.placeholders, placeholder.root = driver.ident

end Standing

namespace Line

theorem spans_subset {line : Line} {placeholder : Placeholder}
    (member : placeholder ∈ line.placeholders) : placeholder.spans ⊆ line.spans :=
  fun _ inside => List.mem_flatMap.mpr ⟨placeholder, member, inside⟩

theorem flatMap_spans_subset {lines others : List Line} (inside : others ⊆ lines) :
    others.flatMap spans ⊆ lines.flatMap spans := by
  intro span member
  rcases List.mem_flatMap.mp member with ⟨line, lineMem, spanMem⟩
  exact List.mem_flatMap.mpr ⟨line, inside lineMem, spanMem⟩

theorem root_mem_spans {line : Line} {placeholder : Placeholder}
    (member : placeholder ∈ line.placeholders) : placeholder.root.span ∈ line.spans :=
  spans_subset member (List.mem_cons_of_mem _ List.mem_cons_self)

theorem span_mem_of_driver {scope : Scope} {line : Line} {standings : List (Standing scope line)}
    {driver : Driver scope line} (ofLine : ∀ standing ∈ standings, standing.OfLine)
    (member : driver ∈ standings.filterMap Standing.driver?) : driver.ident.span ∈ line.spans := by
  rcases List.mem_filterMap.mp member with ⟨standing, standingMem, isDriver⟩
  cases standing with
  | text content => cases isDriver
  | anchored anchor => cases isDriver
  | unbound other =>
      cases isDriver
      rcases ofLine _ standingMem with ⟨placeholder, placeholderMem, same⟩
      exact same ▸ root_mem_spans placeholderMem

theorem meets_emit {scope : Scope} {line : Line} {standings : List (Standing scope line)}
    (ofLine : ∀ standing ∈ standings, standing.OfLine) :
    Except.Meets (LocatedFault.At line.spans) (fun _ => True) (emit standings) := by
  unfold emit
  have each : ∀ item ∈ standings.filterMap Standing.emit?,
      Except.Meets (LocatedFault.At line.spans) (fun _ => True) item := by
    intro item member
    rcases List.mem_filterMap.mp member with ⟨standing, standingMem, emits⟩
    cases standing with
    | text content =>
        cases emits
        trivial
    | anchored anchor =>
        cases emits
        exact anchor.meets_text.among (spans_subset (ofLine _ standingMem))
    | unbound driver => cases emits
  apply (Except.Meets.allOrError each).bind
  intro texts _
  trivial

variable {σ : Type} {resolver : Resolver σ} {states : σ → Prop}

section

variable (finds : ∀ scope name,
  Keeps states Fault.OfExpansion (fun _ => True) (resolver.find scope name))

include finds

theorem keeps_standing (scope : Scope) (line : Line) (part : { part : Part // part ∈ line.parts }) :
    Keeps states (LocatedFault.At line.spans) Standing.OfLine
      (line.standing resolver scope part) := by
  rcases part with ⟨content | placeholder, member⟩
  · exact Keeps.pure trivial
  · have placeholderMem : placeholder ∈ line.placeholders :=
      List.mem_filterMap.mpr ⟨_, member, rfl⟩
    simp only [standing]
    split
    · exact Keeps.pure placeholderMem
    · apply Keeps.locate
      have located : ∀ fault : Fault, fault.OfExpansion →
          LocatedFault.At line.spans ⟨fault, placeholder.root.span⟩ :=
        fun _ ofExpansion => ⟨ofExpansion, root_mem_spans placeholderMem⟩
      apply ((finds _ _).mono located fun _ holds => holds).bind
      intro finding _
      cases finding with
      | relation route => exact Keeps.pure ⟨placeholder, placeholderMem, rfl⟩
      | «attribute» route =>
          apply (Keeps.ofResult ((scope.meets_owner route).mono located fun _ holds => holds)).bind
          intro owner _
          exact Keeps.pure placeholderMem

theorem keeps_standings (scope : Scope) (line : Line) :
    Keeps states (LocatedFault.At line.spans)
      (fun standings => ∀ standing ∈ standings, standing.OfLine)
      (line.standings resolver scope) :=
  Keeps.mapM fun part _ => keeps_standing finds scope line part

theorem keeps_goesDeeper (scope : Scope) (route : Route) (isEmpty : Bool) (line : Line) :
    Keeps states (LocatedFault.At line.spans) (fun _ => True)
      (line.goesDeeper resolver scope route isEmpty) := by
  refine Keeps.tryCatch ((keeps_standings finds scope line).bind ?_) ?_
  · intro standings _
    exact Keeps.pure trivial
  · intro located holds
    split
    · exact Keeps.pure trivial
    · exact Keeps.throw holds

theorem keeps_countDeeper (scope : Scope) (route : Route) (isEmpty : Bool) (lines : List Line) :
    Keeps states (LocatedFault.At (lines.flatMap spans)) (fun _ => True)
      (countDeeper resolver scope route isEmpty lines) := by
  induction lines with
  | nil => exact Keeps.pure trivial
  | cons line rest ih =>
      simp only [countDeeper, List.flatMap_cons]
      apply ((keeps_goesDeeper finds scope route isEmpty line).among
        (List.subset_append_left _ _)).bind
      rintro (_ | _) _
      · exact Keeps.pure trivial
      · apply (ih.among (List.subset_append_right _ _)).bind
        intro count _
        exact Keeps.pure trivial

theorem keeps_expandRun (separator : String) (scope : Scope) (lines : List Line) :
    Keeps states (LocatedFault.At (lines.flatMap spans)) (fun _ => True)
      (expandRun resolver separator scope lines) := by
  induction scope, lines using expandRun.induct with
  | case1 scope =>
      rw [expandRun]
      exact Keeps.pure trivial
  | case2 scope line rest emitted repeated later =>
      rw [expandRun]
      have onLine : line.spans ⊆ (line :: rest).flatMap spans := List.subset_append_left _ _
      have behind : ∀ count, (rest.drop count).flatMap spans ⊆ (line :: rest).flatMap spans := by
        intro count
        exact flatMap_spans_subset (List.subset_cons_of_subset _ (List.drop_subset count rest))
      have group : ∀ count,
          (line :: rest.take count).flatMap spans ⊆ (line :: rest).flatMap spans := by
        intro count
        exact flatMap_spans_subset (List.cons_subset_cons line (List.take_subset count rest))
      apply ((keeps_standings finds scope line).among onLine).bind
      intro standings ofLine
      rcases shortest : Driver.shortest? (standings.filterMap Standing.driver?) with _ | driver
      · apply (Keeps.ofExcept ((meets_emit ofLine).among onLine)).bind
        intro text _
        apply (emitted.among (behind 0)).bind
        intro texts _
        exact Keeps.pure trivial
      · dsimp only
        have walks : Except.Meets (LocatedFault.At line.spans) (fun _ => True)
            ((scope.elements driver.route).mapError fun fault => ⟨fault, driver.ident.span⟩) := by
          have named := span_mem_of_driver ofLine (Driver.mem_of_shortest? shortest)
          apply Except.Meets.mapError
          exact (scope.meets_elements driver.route).mono
            (fun _ ofExpansion => ⟨ofExpansion, named⟩) fun _ _ => trivial
        apply (Keeps.ofExcept (walks.among onLine)).bind
        intro elements _
        have counts := keeps_countDeeper finds scope driver.route elements.isEmpty rest
        apply (counts.among (behind 0)).bind
        intro count _
        apply (Keeps.mapM fun element _ => (repeated driver count element).among (group count)).bind
        intro blocks _
        apply ((later count).among (behind count)).bind
        intro texts _
        exact Keeps.pure trivial

end

end Line

namespace Body

variable {σ : Type} {resolver : Resolver σ} {states : σ → Prop}

section

variable (finds : ∀ scope name,
  Keeps states Fault.OfExpansion (fun _ => True) (resolver.find scope name))

include finds

theorem keeps_loopElements (scope : Scope) (relation : Ident) (element : String) :
    Keeps states (LocatedFault.At [relation.span]) (fun _ => True)
      (loopElements resolver scope relation element) := by
  have located : ∀ fault : Fault, fault.OfExpansion →
      LocatedFault.At [relation.span] ⟨fault, relation.span⟩ :=
    fun _ ofExpansion => ⟨ofExpansion, List.mem_cons_self⟩
  unfold loopElements
  split
  · exact Keeps.pure trivial
  · apply Keeps.locate
    apply ((finds _ _).mono located fun _ holds => holds).bind
    intro finding _
    cases finding with
    | relation route =>
        exact Keeps.ofResult ((scope.meets_elements route).mono located fun _ holds => holds)
    | «attribute» route => exact Keeps.throw (located _ (Fault.ofExpansion_unresolvedName _ _))

/-- An expansion fails only with faults of expansions, at the places of its lines and loops. -/
theorem keeps_expandAfter (separator : String) (scope : Scope) (run : List Line) (body : Body) :
    Keeps states (LocatedFault.At (run.flatMap Line.spans ++ body.spans)) (fun _ => True)
      (body.expandAfter resolver separator scope run) := by
  have runs : ∀ (scope : Scope) (run : List Line) (others : List Span),
      Keeps states (LocatedFault.At (run.flatMap Line.spans ++ others)) (fun _ => True)
        (Line.expandRun resolver separator scope run) :=
    fun scope run _ =>
      (Line.keeps_expandRun finds separator scope run).among (List.subset_append_left _ _)
  induction scope, run, body using expandAfter.induct with
  | case1 scope run => exact runs scope run []
  | case2 scope run content rest ih =>
      rw [expandAfter]
      simpa [spans] using ih
  | case3 scope run content span rest ih =>
      rw [expandAfter]
      apply (runs scope run _).bind
      intro before _
      apply (ih.among (List.subset_append_right _ _)).bind
      intro after _
      exact Keeps.pure trivial
  | case4 scope run relation element inner rest innerIh restIh =>
      rw [expandAfter]
      have ofLoop : [relation.span] ⊆ (loop relation element inner rest).spans := by simp [spans]
      have inside : inner.spans ⊆ (loop relation element inner rest).spans :=
        List.subset_cons_of_subset _ (List.subset_append_left _ _)
      have behind : rest.spans ⊆ (loop relation element inner rest).spans :=
        List.subset_cons_of_subset _ (List.subset_append_right _ _)
      apply (runs scope run _).bind
      intro before _
      apply ((keeps_loopElements finds scope relation element).among
        (List.subset_append_of_subset_right _ ofLoop)).bind
      intro elements _
      apply (Keeps.mapM fun object _ =>
        (innerIh object).among (List.subset_append_of_subset_right _ inside)).bind
      intro blocks _
      apply (restIh.among (List.subset_append_of_subset_right _ behind)).bind
      intro after _
      exact Keeps.pure trivial

end

end Body

/-! ### Errors of templates -/

/-- An error of one of the categories, reported on a line of a source: there at a tag, or at a name
on a tag.  It names owners that collide exactly if it is one of ambiguity, and then several. -/
structure Error.AtTag (categories : List Category) (d : Delimiters) (source : String)
    (lines : List SourceLine) (error : Error) : Prop where
  category : error.fault.category ∈ categories
  place : ∃ span, error.place = some ⟨source, span⟩ ∧ span.start < span.stop ∧
    ∃ line ∈ lines, line.StandsIn source.toList ∧ span.Within line.start line.text ∧
      line.Tags d span
  collides : error.fault.candidates ≠ [] ↔ error.fault.category = .ambiguous
  several : error.fault.category = .ambiguous → 2 ≤ error.fault.candidates.length

theorem Error.atTag_of_located {categories : List Category} {d : Delimiters} {source : String}
    {lines : List SourceLine} {located : LocatedFault}
    (stand : ∀ line ∈ lines, line.StandsIn source.toList)
    (category : located.fault.category ∈ categories)
    (tags : ∃ line ∈ lines, line.Tags d located.span)
    (several : located.fault.category = .ambiguous → 2 ≤ located.fault.candidates.length) :
    (ofLocated source located).AtTag categories d source lines := by
  rcases tags with ⟨line, lineMem, tagged⟩
  refine ⟨category, ⟨_, rfl, tagged.within.start_lt_stop, line, lineMem, stand line lineMem,
    tagged.within, tagged⟩, ⟨Fault.category_of_candidates, fun ambiguous => ?_⟩, several⟩
  have := several ambiguous
  exact List.ne_nil_of_length_pos (Nat.lt_of_lt_of_le Nat.zero_lt_two this)

/-- A template whose places lie in a source that is not empty, and each of whose expansions, with
whatever separator, name and root, fails only with an error at a tag of the source. -/
structure Template.FailsAtTags (d : Delimiters) (source : String) (lines : List SourceLine)
    (template : Template) : Prop where
  nonempty : template.body.spans ≠ [] → template.source ≠ ""
  render : ∀ (engine : Engine) name root error, engine.render template name root = .error error →
    error.AtTag [.unresolved, .ambiguous, .attribute, .unrenderable] d source lines
  renderLines : ∀ (engine : Engine) name root error,
    engine.renderLines template name root = .error error →
      error.AtTag [.unresolved, .ambiguous, .attribute, .unrenderable] d source lines

namespace Template

variable {d : Delimiters} {source : String} {lines : List SourceLine}

theorem atTag_of_eq_error (stand : ∀ line ∈ lines, line.StandsIn source.toList) {error : Error}
    (failed : ofSourceLines? d source lines = .error error) :
    error.AtTag [.malformed, .unbalanced] d source lines := by
  rcases ofSourceLines?_eq_error_iff.mp failed with ⟨located, rfl, unread⟩
  rcases exists_tags_of_eq_error unread with ⟨category, tags⟩
  apply Error.atTag_of_located stand (by simpa using category) tags
  intro ambiguous
  simp [ambiguous] at category

theorem exists_located_of_expandLines {separator : String} {template : Template} {name : String}
    {root : Object} {error : Error}
    (failed : template.expandLines separator name root = .error error) :
    ∃ located, located.At template.body.spans ∧ error = .ofLocated template.source located := by
  have keeps : Keeps (fun _ => True) (LocatedFault.At template.body.spans) (fun _ => True)
      (template.body.expand Resolver.remembering separator (Scope.root name root)) :=
    Body.keeps_expandAfter Resolver.keeps_remembering separator _ [] template.body
  have meets := (keeps [] trivial).1
  simp only [expandLines] at failed
  generalize ((template.body.expand Resolver.remembering separator
    (Scope.root name root)).run.run []).1 = outcome at failed meets
  cases outcome with
  | error located =>
      cases failed
      exact ⟨located, meets, rfl⟩
  | ok texts => cases failed

theorem failsAtTags_of_eq_ok (stand : ∀ line ∈ lines, line.StandsIn source.toList)
    {template : Template} (compiled : ofSourceLines? d source lines = .ok template) :
    template.FailsAtTags d source lines := by
  have sameSource : template.source = source := (ofSourceLines?_eq_ok_iff.mp compiled).1
  have pieces : ∀ (engine : Engine) name root error,
      engine.renderLines template name root = .error error →
        error.AtTag [.unresolved, .ambiguous, .attribute, .unrenderable] d source lines := by
    intro engine name root error failed
    rcases exists_located_of_expandLines failed with ⟨located, holds, rfl⟩
    rw [sameSource]
    exact Error.atTag_of_located stand holds.fault.category
      (exists_tags_of_mem_spans compiled holds.span) holds.fault.collides
  refine ⟨fun kept empty => ?_, fun engine name root error failed => ?_, pieces⟩
  · rcases List.exists_mem_of_ne_nil _ kept with ⟨span, member⟩
    rcases exists_tags_of_mem_spans compiled member with ⟨line, lineMem, tagged⟩
    rcases stand line lineMem with ⟨before, after, split, _⟩
    rcases tagged.within with ⟨front, inside, back, text, nonempty, _⟩
    simp [← sameSource, empty, text, nonempty] at split
  · rcases outcome : template.expandLines engine.separator name root with other | texts
    · rw [Engine.render, expand, outcome] at failed
      cases failed
      exact pieces engine name root error outcome
    · rw [Engine.render, expand, outcome] at failed
      cases failed

end Template

/-- What fails to compile, as a text or as lines, and what fails to expand once it is compiled is
reported at a tag of a line of the source, or at a name on a tag. -/
theorem Engine.fails_at_tags (engine : Engine) :
    (∀ source error, engine.compile source = .error error →
      error.AtTag [.malformed, .unbalanced] engine.delimiters source (SourceLine.ofText source)) ∧
    (∀ source template, engine.compile source = .ok template →
      template.FailsAtTags engine.delimiters source (SourceLine.ofText source)) ∧
    (∀ lines error, engine.compileLines lines = .error error →
      error.AtTag [.malformed, .unbalanced] engine.delimiters ("\n".intercalate lines)
        (SourceLine.ofLines lines)) ∧
    ∀ lines template, engine.compileLines lines = .ok template →
      template.FailsAtTags engine.delimiters ("\n".intercalate lines) (SourceLine.ofLines lines) :=
  ⟨fun _ _ => Template.atTag_of_eq_error fun _ => SourceLine.standsIn_text,
    fun _ _ => Template.failsAtTags_of_eq_ok fun _ => SourceLine.standsIn_text,
    fun _ _ => Template.atTag_of_eq_error fun _ => SourceLine.standsIn_lines,
    fun _ _ => Template.failsAtTags_of_eq_ok fun _ => SourceLine.standsIn_lines⟩

/-- A line with a placeholder. -/
def letterLine : Template :=
  ⟨"Dear \x7bfriend.name\x7d,", .line ⟨[.text "Dear ",
    .placeholder ⟨⟨"friend", ⟨6, 12⟩⟩, [⟨"name", ⟨13, 17⟩⟩], ⟨5, 18⟩⟩, .text ","], ⟨0, 19⟩⟩ .nil⟩

/-- A loop under a name that is no plural does not compile, and a name that nothing has is found by
no expansion. -/
theorem fails_at_singular_and_unresolved :
    (∃ error, Engine.compile {} "\n\x7b$item\x7d\n" = .error error ∧
      error.AtTag [.malformed, .unbalanced] .standard "\n\x7b$item\x7d\n"
        (SourceLine.ofText "\n\x7b$item\x7d\n")) ∧
    Engine.compile {} letterLine.source = .ok letterLine ∧
    ∃ error, Engine.render {} letterLine "root" .empty = .error error ∧
      error.AtTag [.unresolved, .ambiguous, .attribute, .unrenderable] .standard letterLine.source
        (SourceLine.ofText letterLine.source) := by
  have singular : Engine.compile {} "\n\x7b$item\x7d\n" =
      .error ⟨.singularLoop, some ⟨"\n\x7b$item\x7d\n", ⟨3, 7⟩⟩⟩ := by
    decide +kernel
  have compiled : Engine.compile {} letterLine.source = .ok letterLine := by
    decide +kernel
  have unresolved : Engine.render {} letterLine "root" .empty =
      .error ⟨.unresolvedName "friend" "friends", some ⟨letterLine.source, ⟨6, 12⟩⟩⟩ := by
    decide +kernel
  rcases Engine.fails_at_tags {} with ⟨compiling, expanding, _⟩
  exact ⟨⟨_, singular, compiling _ _ singular⟩, compiled, _, unresolved,
    (expanding _ _ compiled).render {} _ _ _ unresolved⟩

end GraphTemplate
