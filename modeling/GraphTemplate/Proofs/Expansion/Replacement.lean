import GraphTemplate.Engine
import GraphTemplate.Proofs.Expansion.Iteration
import GraphTemplate.Proofs.Template.Spans

/-!
# Templates without loops

A text without loop markers, all of whose placeholders begin with the name of the root, is expanded
to itself with each placeholder replaced by the text of the value that it leads to.  Everything
between the placeholders stays as it is.
-/

namespace GraphTemplate

/-! ### Where placeholders lead -/

/-- From an object the names lead through nested objects to a value. -/
inductive Object.LeadsTo : Object → List String → Value → Prop where
  | value {o : Object} {name : String} {content : Value} (found : o.value? name = some content) :
      LeadsTo o [name] content
  | object {o inner : Object} {name : String} {path : List String} {content : Value}
      (found : o.object? name = some inner) (leads : inner.LeadsTo path content) :
      LeadsTo o (name :: path) content

namespace Object

variable {o : Object} {name next : String} {path : List String} {content : Value}

theorem not_leadsTo_nil : ¬ o.LeadsTo [] content := by
  rintro ⟨⟩

theorem leadsTo_singleton : o.LeadsTo [name] content ↔ o.value? name = some content := by
  constructor
  · intro leads
    cases leads with
    | value found => exact found
    | object _ further => exact absurd further not_leadsTo_nil
  · exact .value

theorem leadsTo_cons_cons : o.LeadsTo (name :: next :: path) content ↔
    ∃ inner, o.object? name = some inner ∧ inner.LeadsTo (next :: path) content := by
  constructor
  · intro leads
    cases leads with
    | object found further => exact ⟨_, found, further⟩
  · rintro ⟨inner, found, further⟩
    exact .object found further

theorem LeadsTo.unique {other : Value} (leads : o.LeadsTo path content)
    (otherLeads : o.LeadsTo path other) : content = other := by
  induction leads with
  | value found =>
      rw [leadsTo_singleton, found] at otherLeads
      exact Option.some.inj otherLeads
  | @object _ _ name path _ found leads ih =>
      rcases path with _ | ⟨next, more⟩
      · exact absurd leads not_leadsTo_nil
      · rw [leadsTo_cons_cons, found] at otherLeads
        rcases otherLeads with ⟨_, same, further⟩
        cases same
        exact ih further

theorem follow_eq_value_iff {idents : List Ident} :
    o.follow idents = .ok (.value content) ↔ o.LeadsTo (idents.map Ident.name) content := by
  induction idents generalizing o with
  | nil => simp [follow, not_leadsTo_nil]
  | cons ident rest ih =>
      rcases rest with _ | ⟨second, more⟩
      · rw [List.map_cons, List.map_nil, leadsTo_singleton]
        rcases found : o.attr? ident.name with _ | (value | inner | elements) <;>
          simp [follow, value?, found]
      · rw [List.map_cons, List.map_cons, leadsTo_cons_cons, follow.eq_def]
        rcases found : o.attr? ident.name with _ | (value | inner | elements)
        · simp [object?, found]
        · simp [object?, found]
        · simpa [object?, found] using ih
        · simp [object?, found]

end Object

theorem Placeholder.textIn_eq_some_iff {meaning : String → Option Object}
    {placeholder : Placeholder} {root : Object} {text : String}
    (bound : meaning placeholder.root.name = some root) :
    placeholder.textIn meaning = some text ↔
      ∃ content, root.LeadsTo (placeholder.path.map Ident.name) content ∧
        content.text? = some text := by
  simp only [textIn, bound, ← Object.follow_eq_value_iff, Option.bind_eq_bind, Option.bind_some]
  rcases root.follow placeholder.path with fault | (content | content | elements)
  · simp [Except.toOption]
  · simp [Except.toOption, Attr.text?]
  · simp [Except.toOption, Attr.text?]
  · simp [Except.toOption, Attr.text?]

/-! ### Replacing spans -/

/-- A text that stands in the place of the bytes of a span. -/
structure Replacement where
  span : Span
  text : String

/-- In a text that begins at a position spans are replaced by texts, one after the other.  What is
before them, between them and behind them stays. -/
inductive Replaced : Nat → List Char → List Replacement → List Char → Prop where
  | done (start : Nat) (text : List Char) : Replaced start text [] text
  | next {start : Nat} {after output : List Char} {replacements : List Replacement}
      (before inside : List Char) (text : String)
      (behind : Replaced (start + Text.byteLength (before ++ inside)) after replacements output) :
      Replaced start (before ++ inside ++ after)
        (⟨Span.ofText (start + Text.byteLength before) inside, text⟩ :: replacements)
        (before ++ text.toList ++ output)

namespace Replaced

variable {start : Nat} {text output : List Char} {replacements : List Replacement}

theorem behind {position : Nat} (front : List Char)
    (replaced : Replaced (position + Text.byteLength front) text replacements output) :
    Replaced position (front ++ text) replacements (front ++ output) := by
  generalize begins : position + Text.byteLength front = start at replaced
  cases replaced with
  | done => exact .done _ _
  | next before inside content later =>
      subst begins
      rw [Nat.add_assoc, ← Text.byteLength_append, ← List.append_assoc] at later
      have whole := Replaced.next (front ++ before) inside content later
      simpa [Nat.add_assoc] using whole

theorem append {more result : List Char} {others : List Replacement}
    (first : Replaced start text replacements output)
    (second : Replaced (start + Text.byteLength text) more others result) :
    Replaced start (text ++ more) (replacements ++ others) (output ++ result) := by
  induction first with
  | done start text => exact second.behind text
  | next before inside content later ih =>
      have whole := Replaced.next before inside content (ih (by simpa [Nat.add_assoc] using second))
      simpa using whole

theorem eq_of_nil (replaced : Replaced start text [] output) : output = text := by
  cases replaced
  rfl

end Replaced

/-! ### Texts of lines -/

/-- Where names stand for objects, the text of the placeholder replaces its bytes. -/
structure Placeholder.ReplacedBy (meaning : String → Option Object) (placeholder : Placeholder)
    (replacement : Replacement) : Prop where
  span : placeholder.span = replacement.span
  text : placeholder.textIn meaning = some replacement.text

theorem mapM_cons_eq_some_iff {α β : Type} {f : α → Option β} {item : α} {rest : List α}
    {values : List β} : (item :: rest).mapM f = some values ↔
      ∃ value others, f item = some value ∧ rest.mapM f = some others ∧
        values = value :: others := by
  simp only [List.mapM_cons, Option.bind_eq_bind, Option.bind_eq_some_iff, Option.pure_def,
    Option.some.injEq]
  constructor
  · rintro ⟨value, first, others, later, rfl⟩
    exact ⟨value, others, first, later, rfl⟩
  · rintro ⟨value, others, first, later, rfl⟩
    exact ⟨value, first, others, later, rfl⟩

theorem isSome_mapM {α β : Type} {f : α → Option β} {items : List α} :
    (items.mapM f).isSome ↔ ∀ item ∈ items, (f item).isSome := by
  induction items with
  | nil => simp
  | cons item rest ih =>
      rw [List.forall_mem_cons, ← ih, List.mapM_cons]
      cases f item <;> cases rest.mapM f <;> simp

section

variable {d : Delimiters} {meaning : String → Option Object}

theorem Line.isSome_textIn {line : Line} :
    (line.textIn meaning).isSome ↔
      ∀ placeholder ∈ line.placeholders, (placeholder.textIn meaning).isSome := by
  rw [textIn, Option.isSome_map, isSome_mapM]
  constructor
  · intro each placeholder member
    rcases List.mem_filterMap.mp member with ⟨part, partMem, isPlaceholder⟩
    cases part with
    | text content => cases isPlaceholder
    | placeholder content =>
        cases isPlaceholder
        exact each _ partMem
  · intro each part partMem
    cases part with
    | text content => rfl
    | placeholder content => exact each content (List.mem_filterMap.mpr ⟨_, partMem, rfl⟩)

/-- The pieces of a line without loop markers are written one after the other, placeholders by what
replaces them. -/
theorem Lexeme.replaced_place (span : Span) {tokens : List Token} {start : Nat}
    {texts : List String}
    (unmarked : (place d start tokens).filterMap (marker? d) = [])
    (given : ((place d start tokens).filterMap (part? d)).mapM (Part.textIn meaning) = some texts) :
    ∃ replacements,
      List.Forall₂ (Placeholder.ReplacedBy meaning)
        (Line.mk ((place d start tokens).filterMap (part? d)) span).placeholders replacements ∧
      Replaced start (tokens.flatMap (Token.spell d)) replacements (String.join texts).toList := by
  induction tokens generalizing start texts with
  | nil =>
      cases given
      exact ⟨[], .nil, .done _ _⟩
  | cons token rest ih =>
      rcases token with text | (⟨root, path⟩ | name | name)
      · rcases mapM_cons_eq_some_iff.mp given with ⟨_, others, here, later, rfl⟩
        cases here
        rcases ih unmarked later with ⟨replacements, each, replaced⟩
        refine ⟨replacements, each, ?_⟩
        have whole := replaced.behind text
        simpa [Token.spell] using whole
      · rcases mapM_cons_eq_some_iff.mp given with ⟨text, others, here, later, rfl⟩
        rcases ih unmarked later with ⟨replacements, each, replaced⟩
        refine ⟨⟨Span.ofText start ((Tag.placeholder root path).spell d), text⟩ :: replacements,
          .cons ⟨rfl, here⟩ each, ?_⟩
        have whole := Replaced.next [] ((Tag.placeholder root path).spell d) text replaced
        simpa [Token.spell] using whole
      -- A loop marker cannot be among the pieces.
      · cases unmarked
      · cases unmarked

theorem SourceLine.replaced {line : SourceLine} {text : String} (unmarked : line.markers d = [])
    (given : (line.content d).textIn meaning = some text) :
    ∃ replacements,
      List.Forall₂ (Placeholder.ReplacedBy meaning) (line.content d).placeholders replacements ∧
      Replaced line.start line.text replacements text.toList := by
  rcases Option.map_eq_some_iff.mp given with ⟨texts, each, rfl⟩
  have replaced := Lexeme.replaced_place line.span unmarked each
  rwa [Token.flatMap_spell_scan] at replaced

/-- A line without any tag is its own text. -/
theorem SourceLine.textIn_content_of_plain {line : SourceLine} (unmarked : line.markers d = [])
    (plain : (line.content d).placeholders = []) :
    (line.content d).textIn meaning = some (String.ofList line.text) := by
  -- With nothing to replace the line has a text, and what is left of it is all of it.
  have given : ((line.content d).textIn meaning).isSome := by
    rw [Line.isSome_textIn, plain]
    exact fun _ member => by cases member
  rcases Option.isSome_iff_exists.mp given with ⟨text, isText⟩
  rcases replaced unmarked isText with ⟨replacements, each, replaced⟩
  rw [plain] at each
  cases each
  rw [isText, ← replaced.eq_of_nil, String.ofList_toList]

/-- Lines without loop markers are written one after the other, placeholders by what replaces
them. -/
theorem SourceLine.replaced_place {start : Nat} {texts : List (List Char)} {outputs : List String}
    (unmarked : ∀ line ∈ place 0 start texts, line.markers d = [])
    (given : (place 0 start texts).mapM (fun line => (line.content d).textIn meaning) =
      some outputs) :
    ∃ replacements,
      List.Forall₂ (Placeholder.ReplacedBy meaning)
        ((place 0 start texts).flatMap fun line => (line.content d).placeholders) replacements ∧
      Replaced start texts.flatten replacements (String.join outputs).toList := by
  induction texts generalizing start outputs with
  | nil =>
      cases given
      exact ⟨[], .nil, .done _ _⟩
  | cons text rest ih =>
      rw [place, List.forall_mem_cons] at unmarked
      rcases mapM_cons_eq_some_iff.mp given with ⟨output, others, here, later, rfl⟩
      rcases replaced unmarked.1 here with ⟨first, firstEach, firstReplaced⟩
      rcases ih unmarked.2 later with ⟨second, secondEach, secondReplaced⟩
      refine ⟨first ++ second, List.rel_append firstEach secondEach, ?_⟩
      have whole := firstReplaced.append secondReplaced
      simpa using whole

end

/-! ### Expanding without loops -/

/-- The text of a line of a body where names stand for objects. -/
def Entry.textIn (meaning : String → Option Object) : Entry → Option String
  | text content _ => some content
  | line content => content.textIn meaning
  | opening _ => none
  | closing _ => none

/-- All names on the line are bound, and the line begins or ends no loop. -/
def Entry.Bound (scope : Scope) : Entry → Prop
  | text _ _ => True
  | line content => ∀ name ∈ content.roots, scope.lookup? name ≠ none
  | opening _ => False
  | closing _ => False

namespace Yields

variable {scope : Scope} {separator : String} {frame : Memory → Prop}

theorem expandRun_allBound {lines : List Line}
    (bound : ∀ line ∈ lines, ∀ name ∈ line.roots, scope.lookup? name ≠ none) :
    Yields frame (Line.expandRun Resolver.remembering separator scope lines)
      (lines.mapM (Line.textIn scope.lookup?)) frame := by
  induction lines with
  | nil => exact expandRun_nil
  | cons line rest ih =>
      rw [List.forall_mem_cons] at bound
      rw [List.mapM_cons]
      exact expandRun_bound bound.1 (ih bound.2)

theorem expandAfter_allBound {run : List Line} {body : Body}
    (runBound : ∀ line ∈ run, ∀ name ∈ line.roots, scope.lookup? name ≠ none)
    (bound : ∀ entry ∈ body.entries, entry.Bound scope) :
    Yields frame (body.expandAfter Resolver.remembering separator scope run)
      (do let before ← run.mapM (Line.textIn scope.lookup?)
          let after ← body.entries.mapM (Entry.textIn scope.lookup?)
          return before ++ after) frame := by
  induction body generalizing run with
  | nil =>
      have runs : Yields frame (Line.expandRun Resolver.remembering separator scope run) _ _ :=
        expandRun_allBound runBound
      simpa [Body.expandAfter, Body.entries] using runs
  | text content span rest ih =>
      have texts : (Body.text content span rest).entries.mapM (Entry.textIn scope.lookup?) =
          (content :: ·) <$> rest.entries.mapM (Entry.textIn scope.lookup?) := by
        rw [Body.entries, List.mapM_cons]
        cases rest.entries.mapM (Entry.textIn scope.lookup?) <;> rfl
      have further := ih (List.forall_mem_nil _) (List.forall_mem_cons.mp bound).2
      rw [List.mapM_nil, pure_bind] at further
      rw [Body.expandAfter, texts]
      simp only [bind_map_left]
      apply (expandRun_allBound runBound).bind
      intro before _
      simpa using further.bind fun after _ => Yields.pure (before ++ content :: after)
  | line content rest ih =>
      have bounds := List.forall_mem_cons.mp bound
      have further := ih
        (List.forall_mem_append.mpr ⟨runBound, List.forall_mem_singleton.mpr bounds.1⟩) bounds.2
      have texts : (Body.line content rest).entries.mapM (Entry.textIn scope.lookup?) = (do
          let text ← content.textIn scope.lookup?
          let after ← rest.entries.mapM (Entry.textIn scope.lookup?)
          return text :: after) := by
        rw [Body.entries, List.mapM_cons]
        rfl
      rw [Body.expandAfter, texts]
      simpa [List.mapM_append, Option.bind_assoc] using further
  | loop relation element inner rest => exact absurd (bound _ List.mem_cons_self) id

end Yields

/-! ### Templates -/

/-- The placeholders on lines, in their order. -/
def SourceLine.placeholders (d : Delimiters) (lines : List SourceLine) : List Placeholder :=
  lines.flatMap fun line => (line.content d).placeholders

section

variable {d : Delimiters} {lines : List SourceLine} {entries : List Entry}

theorem Entry.mapM_textIn (meaning : String → Option Object)
    (unmarked : ∀ line ∈ lines, line.markers d = [])
    (onLines : List.Forall₂ (fun line entry => OnLine d line entry) lines entries) :
    entries.mapM (textIn meaning) = lines.mapM fun line => (line.content d).textIn meaning := by
  induction onLines with
  | nil => rfl
  | @cons line entry rest others onLine _ ih =>
      rw [List.forall_mem_cons] at unmarked
      have same : entry.textIn meaning = (line.content d).textIn meaning := by
        cases onLine with
        | text _ plain => exact (SourceLine.textIn_content_of_plain unmarked.1 plain).symm
        | line => rfl
        | opening only => simp [unmarked.1] at only
        | closing only => simp [unmarked.1] at only
      rw [List.mapM_cons, List.mapM_cons, same, ih unmarked.2]

theorem Entry.bound_of_onLine {scope : Scope} {line : SourceLine} {entry : Entry}
    (unmarked : line.markers d = [])
    (bound : ∀ placeholder ∈ (line.content d).placeholders,
      scope.lookup? placeholder.root.name ≠ none)
    (onLine : OnLine d line entry) : entry.Bound scope := by
  cases onLine with
  | text => trivial
  | line => exact List.forall_mem_map.mpr bound
  | opening only => simp [unmarked] at only
  | closing only => simp [unmarked] at only

/-- A template without loops that names nothing but the root gives the texts of its lines. -/
theorem Template.toOption_expandLines_of_unmarked {source separator name : String}
    {template : Template}
    (compiled : ofSourceLines? d source lines = .ok template)
    (unmarked : ∀ line ∈ lines, line.markers d = []) (root : Object)
    (named : ∀ placeholder ∈ SourceLine.placeholders d lines, placeholder.root.name = name) :
    (template.expandLines separator name root).toOption =
      lines.mapM fun line => (line.content d).textIn (Scope.root name root).lookup? := by
  have onLines := forall₂_entries compiled
  have bound : ∀ entry ∈ template.body.entries, entry.Bound (Scope.root name root) := by
    intro entry member
    rcases exists_of_mem_right onLines member with ⟨line, lineMem, onLine⟩
    refine Entry.bound_of_onLine (unmarked line lineMem) (fun placeholder inside => ?_) onLine
    rw [named placeholder (List.mem_flatMap.mpr ⟨line, lineMem, inside⟩), Scope.lookup?_root,
      if_pos rfl]
    exact Option.some_ne_none root
  have yields : Yields (fun _ => True)
      (template.body.expandAfter Resolver.remembering separator (Scope.root name root) []) _ _ :=
    Yields.expandAfter_allBound (List.forall_mem_nil _) bound
  rw [expandLines, toOption_mapError, Body.expand, (yields [] trivial).1, List.mapM_nil, pure_bind,
    ← Entry.mapM_textIn _ unmarked onLines]
  simp

theorem Template.expand_eq_ok_iff {separator name : String} {template : Template} {root : Object}
    {output : String} : template.expand separator name root = .ok output ↔
      ∃ texts, (template.expandLines separator name root).toOption = some texts ∧
        String.join texts = output := by
  rw [expand]
  rcases template.expandLines separator name root with error | texts <;>
    simp [Except.map, Except.toOption]

end

/-- The placeholder leads from the root to a value. -/
def Placeholder.LeadsTo (root : Object) (placeholder : Placeholder) (content : Value) : Prop :=
  root.LeadsTo (placeholder.path.map Ident.name) content

/-- The text of the value to which the placeholder leads replaces the bytes of the placeholder. -/
structure Placeholder.Becomes (root : Object) (placeholder : Placeholder)
    (replacement : Replacement) : Prop where
  span : placeholder.span = replacement.span
  text : ∃ content, placeholder.LeadsTo root content ∧ content.text? = some replacement.text

namespace Placeholder

variable {placeholder : Placeholder} {name : String} {root : Object}

theorem textIn_root (named : placeholder.root.name = name) {text : String} :
    placeholder.textIn (Scope.root name root).lookup? = some text ↔
      ∃ content, placeholder.LeadsTo root content ∧ content.text? = some text := by
  subst named
  exact textIn_eq_some_iff (Scope.root placeholder.root.name root).lookup?_innermost

theorem isSome_textIn_root (named : placeholder.root.name = name) :
    (placeholder.textIn (Scope.root name root).lookup?).isSome ↔
      ∃ content, placeholder.LeadsTo root content ∧ content.isScalar := by
  simp only [Option.isSome_iff_exists, textIn_root named, ← Value.text?_isSome]
  constructor
  · rintro ⟨text, content, leads, isText⟩
    exact ⟨content, leads, text, isText⟩
  · rintro ⟨content, leads, text, isText⟩
    exact ⟨text, content, leads, isText⟩

theorem ReplacedBy.becomes {replacement : Replacement} (named : placeholder.root.name = name)
    (replaced : placeholder.ReplacedBy (Scope.root name root).lookup? replacement) :
    placeholder.Becomes root replacement :=
  ⟨replaced.span, (textIn_root named).mp replaced.text⟩

theorem Becomes.eq {replacement : Replacement} {content : Value} {text : String}
    (becomes : placeholder.Becomes root replacement) (leads : placeholder.LeadsTo root content)
    (isText : content.text? = some text) : replacement = ⟨placeholder.span, text⟩ := by
  rcases becomes with ⟨span, other, otherLeads, otherText⟩
  rw [← leads.unique otherLeads, isText] at otherText
  rcases replacement with ⟨place, given⟩
  cases otherText
  cases span
  rfl

end Placeholder

theorem SourceLine.isSome_mapM_textIn {d : Delimiters} {meaning : String → Option Object}
    {lines : List SourceLine} :
    (lines.mapM fun line : SourceLine => (line.content d).textIn meaning).isSome ↔
      ∀ placeholder ∈ placeholders d lines, (placeholder.textIn meaning).isSome := by
  simp only [isSome_mapM, Line.isSome_textIn, placeholders]
  exact List.forall_mem_flatMap.symm

theorem Template.exists_expand_eq_ok_iff {d : Delimiters} {lines : List SourceLine}
    {source separator name : String} {template : Template}
    (compiled : ofSourceLines? d source lines = .ok template)
    (unmarked : ∀ line ∈ lines, line.markers d = []) (root : Object)
    (named : ∀ placeholder ∈ SourceLine.placeholders d lines, placeholder.root.name = name) :
    (∃ output, template.expand separator name root = .ok output) ↔
      ∀ placeholder ∈ SourceLine.placeholders d lines, ∃ content,
        placeholder.LeadsTo root content ∧ content.isScalar := by
  have texts : (template.expandLines separator name root).toOption = _ :=
    toOption_expandLines_of_unmarked compiled unmarked root named
  have each : (∀ placeholder ∈ SourceLine.placeholders d lines, ∃ content,
        placeholder.LeadsTo root content ∧ content.isScalar) ↔
      ∀ placeholder ∈ SourceLine.placeholders d lines,
        (placeholder.textIn (Scope.root name root).lookup?).isSome :=
    forall₂_congr fun placeholder member =>
      (Placeholder.isSome_textIn_root (named placeholder member)).symm
  rw [each, ← SourceLine.isSome_mapM_textIn, ← texts, Option.isSome_iff_exists]
  simp only [expand_eq_ok_iff]
  constructor
  · rintro ⟨_, outputs, given, _⟩
    exact ⟨outputs, given⟩
  · rintro ⟨outputs, given⟩
    exact ⟨_, outputs, given, rfl⟩

/-- A text without loop markers compiles.  If its placeholders name nothing but the root, it is
expanded exactly if each of them leads through nested objects to a scalar, and then to itself with
every placeholder replaced by the text of its scalar.  Without placeholders it is expanded to
itself, whatever the root and its name. -/
theorem Engine.render_replaces (engine : Engine) {source : String}
    (unmarked : ∀ line ∈ SourceLine.ofText source, line.markers engine.delimiters = []) :
    ∃ template, engine.compile source = .ok template ∧
      let placeholders := SourceLine.placeholders engine.delimiters (SourceLine.ofText source)
      (∀ name root, (∀ placeholder ∈ placeholders, placeholder.root.name = name) →
        ((∃ output, engine.render template name root = .ok output) ↔
          ∀ placeholder ∈ placeholders, ∃ content,
            placeholder.LeadsTo root content ∧ content.isScalar) ∧
        ∀ output, engine.render template name root = .ok output →
          ∃ replacements, List.Forall₂ (Placeholder.Becomes root) placeholders replacements ∧
            Replaced 0 source.toList replacements output.toList) ∧
      (placeholders = [] → ∀ name root, engine.render template name root = .ok source) := by
  rcases Template.exists_ok_of_unmarked source unmarked with ⟨template, compiled⟩
  refine ⟨template, compiled, ?_⟩
  intro placeholders
  have succeeds : ∀ name root, (∀ placeholder ∈ placeholders, placeholder.root.name = name) →
      ((∃ output, engine.render template name root = .ok output) ↔
        ∀ placeholder ∈ placeholders, ∃ content,
          placeholder.LeadsTo root content ∧ content.isScalar) :=
    fun name root named => Template.exists_expand_eq_ok_iff compiled unmarked root named
  have replaces : ∀ name root, (∀ placeholder ∈ placeholders, placeholder.root.name = name) →
      ∀ output, engine.render template name root = .ok output →
        ∃ replacements, List.Forall₂ (Placeholder.Becomes root) placeholders replacements ∧
          Replaced 0 source.toList replacements output.toList := by
    intro name root named output rendered
    rcases Template.expand_eq_ok_iff.mp rendered with ⟨texts, expanded, rfl⟩
    rw [Template.toOption_expandLines_of_unmarked compiled unmarked root named] at expanded
    rcases SourceLine.replaced_place unmarked expanded with ⟨replacements, each, replaced⟩
    refine ⟨replacements, ?_, by rwa [Text.flatten_lines] at replaced⟩
    have both := (List.forall₂_and_left _ _).mpr ⟨named, each⟩
    exact both.imp fun _ _ replaced => replaced.2.becomes replaced.1
  refine ⟨fun name root named => ⟨succeeds name root named, replaces name root named⟩, ?_⟩
  intro none name root
  have named : ∀ placeholder ∈ placeholders, placeholder.root.name = name := by simp [none]
  rcases (succeeds name root named).mpr (by simp [none]) with ⟨output, rendered⟩
  rcases replaces name root named output rendered with ⟨replacements, each, replaced⟩
  rw [none] at each
  cases each
  rw [rendered, String.toList_inj.mp replaced.eq_of_nil]

/-- A text with two placeholders, an empty line, braces that belong to no tag, and no newline at its
end. -/
def greeting : String :=
  "Dear \x7bme.name\x7d,\n\n\x7b from \x7bme.home.town\x7d\x7d"

def traveller : Object :=
  .mk [("name", .value (.string "Ada")),
    ("home", .object (.mk [("town", .value (.string "Rome"))]))]

theorem render_greeting :
    (∀ line ∈ SourceLine.ofText greeting, line.markers Delimiters.standard = []) ∧
    ∃ template, Engine.compile {} greeting = .ok template ∧
      ∃ output, Engine.render {} template "me" traveller = .ok output ∧
        Replaced 0 greeting.toList [⟨⟨5, 14⟩, "Ada"⟩, ⟨⟨24, 38⟩, "Rome"⟩] output.toList := by
  have unmarked : ∀ line ∈ SourceLine.ofText greeting, line.markers Delimiters.standard = [] := by
    decide +kernel
  have placeholders : SourceLine.placeholders .standard (SourceLine.ofText greeting) =
      [⟨⟨"me", ⟨6, 8⟩⟩, [⟨"name", ⟨9, 13⟩⟩], ⟨5, 14⟩⟩,
        ⟨⟨"me", ⟨25, 27⟩⟩, [⟨"home", ⟨28, 32⟩⟩, ⟨"town", ⟨33, 37⟩⟩], ⟨24, 38⟩⟩] := by
    decide +kernel
  have home : traveller.object? "home" = some (.mk [("town", .value (.string "Rome"))]) := rfl
  rcases Engine.render_replaces {} unmarked with ⟨template, compiled, rendered, _⟩
  rw [placeholders] at rendered
  rcases rendered "me" traveller (by simp) with ⟨succeeds, replaces⟩
  have leads : ∃ output, Engine.render {} template "me" traveller = .ok output := by
    rw [succeeds, List.forall_mem_cons, List.forall_mem_singleton]
    exact ⟨⟨.string "Ada", .value rfl, rfl⟩, ⟨.string "Rome", .object home (.value rfl), rfl⟩⟩
  rcases leads with ⟨output, given⟩
  refine ⟨unmarked, template, compiled, output, given, ?_⟩
  rcases replaces output given with ⟨_, _ | @⟨_, _, _, _, name, _ | ⟨town, _ | _⟩⟩, replaced⟩
  rwa [name.eq (.value rfl) rfl, town.eq (.object home (.value rfl)) rfl] at replaced

end GraphTemplate
