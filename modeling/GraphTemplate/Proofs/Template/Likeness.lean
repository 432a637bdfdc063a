import GraphTemplate.Proofs.Relation.Likeness

/-!
# Likeness of template bodies

Bodies are alike if they say the same at corresponding places, whichever places correspond.  Names
that are followed through alike objects lead to alike attributes, or they fail for the same reason at
corresponding places.
-/

namespace GraphTemplate

section

variable (spans : Span → Span → Prop)

structure Ident.Alike (ident other : Ident) : Prop where
  name : ident.name = other.name
  span : spans ident.span other.span

structure Placeholder.Alike (placeholder other : Placeholder) : Prop where
  root : Ident.Alike spans placeholder.root other.root
  path : List.Forall₂ (Ident.Alike spans) placeholder.path other.path
  span : spans placeholder.span other.span

inductive Part.Alike : Part → Part → Prop where
  | text (content : String) : Alike (.text content) (.text content)
  | placeholder {content other : Placeholder} (same : Placeholder.Alike spans content other) :
      Alike (.placeholder content) (.placeholder other)

def Line.Alike (line other : Line) : Prop :=
  List.Forall₂ (Part.Alike spans) line.parts other.parts

inductive Body.Alike : Body → Body → Prop where
  | nil : Alike .nil .nil
  | text (content : String) (span otherSpan : Span) {rest otherRest : Body}
      (later : Alike rest otherRest) :
      Alike (.text content span rest) (.text content otherSpan otherRest)
  | line {content other : Line} {rest otherRest : Body} (same : Line.Alike spans content other)
      (later : Alike rest otherRest) : Alike (.line content rest) (.line other otherRest)
  | loop {relation otherRelation : Ident} (element : String) {inner otherInner rest otherRest : Body}
      (same : Ident.Alike spans relation otherRelation) (inside : Alike inner otherInner)
      (later : Alike rest otherRest) :
      Alike (.loop relation element inner rest) (.loop otherRelation element otherInner otherRest)

/-- Bodies with loops over the same relations, and between them related lines and texts. -/
inductive Body.Matches (lines : Line → Line → Prop) (texts : String → String → Prop) :
    Body → Body → Prop where
  | nil : Matches lines texts .nil .nil
  | text {content otherContent : String} (span otherSpan : Span) (same : texts content otherContent)
      {rest otherRest : Body} (later : Matches lines texts rest otherRest) :
      Matches lines texts (.text content span rest) (.text otherContent otherSpan otherRest)
  | line {content other : Line} {rest otherRest : Body} (same : lines content other)
      (later : Matches lines texts rest otherRest) :
      Matches lines texts (.line content rest) (.line other otherRest)
  | loop {relation otherRelation : Ident} (element : String) {inner otherInner rest otherRest : Body}
      (same : Ident.Alike spans relation otherRelation)
      (inside : Matches lines texts inner otherInner)
      (later : Matches lines texts rest otherRest) :
      Matches lines texts (.loop relation element inner rest)
        (.loop otherRelation element otherInner otherRest)

/-- Related faults at corresponding places. -/
structure LocatedFault.Alike (faults : Fault → Fault → Prop) (located other : LocatedFault) :
    Prop where
  fault : faults located.fault other.fault
  span : spans located.span other.span

end

section

variable {spans : Span → Span → Prop}

theorem Part.Alike.refl (reflexive : ∀ span, spans span span) (part : Part) :
    Part.Alike spans part part := by
  have ident : ∀ ident : Ident, Ident.Alike spans ident ident :=
    fun ident => ⟨rfl, reflexive ident.span⟩
  cases part with
  | text content => exact .text content
  | placeholder content =>
      exact .placeholder ⟨ident _, List.forall₂_same.mpr fun other _ => ident other, reflexive _⟩

theorem Line.Alike.refl (reflexive : ∀ span, spans span span) (line : Line) :
    Line.Alike spans line line :=
  List.forall₂_same.mpr fun part _ => Part.Alike.refl reflexive part

theorem Body.Alike.refl (reflexive : ∀ span, spans span span) (body : Body) :
    Body.Alike spans body body := by
  induction body with
  | nil => exact .nil
  | text content span rest ih => exact .text content span span ih
  | line content rest ih => exact .line (Line.Alike.refl reflexive content) ih
  | loop relation element inner rest innerIh restIh =>
      exact .loop element ⟨rfl, reflexive relation.span⟩ innerIh restIh

theorem Body.Alike.matches {lines : Line → Line → Prop} {body other : Body}
    (alike : Body.Alike spans body other)
    (related : ∀ line otherLine, Line.Alike spans line otherLine → lines line otherLine) :
    Body.Matches spans lines Eq body other := by
  induction alike with
  | nil => exact .nil
  | text content span otherSpan _ ih => exact .text span otherSpan rfl ih
  | line same _ ih => exact .line (related _ _ same) ih
  | loop element same _ _ innerIh restIh => exact .loop element same innerIh restIh

theorem Body.Matches.mono {lines otherLines : Line → Line → Prop} {texts : String → String → Prop}
    {body other : Body} (matching : Body.Matches spans lines texts body other)
    (follows : ∀ line other, lines line other → otherLines line other) :
    Body.Matches spans otherLines texts body other := by
  induction matching with
  | nil => exact .nil
  | text span otherSpan same _ ih => exact .text span otherSpan same ih
  | line same _ ih => exact .line (follows _ _ same) ih
  | loop element same _ _ innerIh restIh => exact .loop element same innerIh restIh

theorem Tallies.eq_of_alike {α : Type} {result other : Except LocatedFault α}
    (tallies : Tallies (LocatedFault.Alike Eq Eq) Eq result other) : result = other := by
  rcases tallies with ⟨rfl⟩ | @⟨⟨fault, span⟩, ⟨_, _⟩, ⟨faultSame, spanSame⟩⟩
  · rfl
  · cases faultSame
    cases spanSame
    rfl

theorem Object.Likeness.follow {objects : Object → Object → Prop} {o other : Object}
    {idents others : List Ident} (likeness : Object.Likeness objects) (same : objects o other)
    (each : List.Forall₂ (Ident.Alike spans) idents others) :
    Tallies (LocatedFault.Alike spans Eq) (Attr.Alike objects) (o.follow idents)
      (other.follow others) := by
  induction each generalizing o other with
  | nil => exact .ok (.object same)
  | @cons first second rest others ident later ih =>
      have attrs := likeness same first.name
      unfold Object.follow
      rw [← ident.name]
      generalize o.attr? first.name = attr, other.attr? first.name = otherAttr at attrs
      rcases attrs with attrSame | _
      · rcases later with _ | ⟨next, more⟩
        · exact .ok attrSame
        · rcases attrSame with ⟨content⟩ | ⟨inner⟩ | ⟨elements⟩
          · exact .error ⟨congrArg (Fault.noAttributes · _) next.name, next.span⟩
          · exact ih inner
          · exact .error ⟨congrArg (Fault.noAttributes · _) next.name, next.span⟩
      · exact .error ⟨rfl, ident.span⟩

end

end GraphTemplate
