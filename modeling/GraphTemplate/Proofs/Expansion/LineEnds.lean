import GraphTemplate.Engine
import GraphTemplate.Proofs.Discovery
import GraphTemplate.Proofs.Expansion.Lockstep
import GraphTemplate.Proofs.Template.Newline

/-!
# Templates of lines and of texts

A template can be compiled from a sequence of lines or from the text in which a newline ends each of
them.  The two compile or fail together, and they expand or fail together.  What the text emits is
what the lines emit, with a newline at the end of each piece but the separators, which are the same
in both and stand at the same places.
-/

namespace GraphTemplate

theorem allOrError_cons {ε α : Type} (item : Except ε α) (rest : List (Except ε α)) :
    allOrError (item :: rest) = do
      let first ← item
      let later ← allOrError rest
      return first :: later := by
  cases item <;> cases others : allOrError rest <;> simp [allOrError, others] <;> rfl

namespace Lockstep

/-- One expansion on both sides. -/
def twice {σ : Type} (resolver : Resolver σ) : Lockstep σ σ where
  left := resolver
  right := resolver
  states := Eq
  faults := Eq
  spans := Eq
  objects := Eq
  scopes := Eq
  answered _ _ _ := True
  faults_refl _ := rfl
  category_eq _ _ same := congrArg Fault.category same
  likeness := Object.Likeness.eq
  bindings := by
    rintro scope _ rfl
    exact List.forall₂_same.mpr fun _ _ => ⟨rfl, rfl⟩
  find := by
    rintro scope _ name rfl state _ rfl
    refine ⟨?_, rfl⟩
    cases ((resolver.find scope name).run.run state).1 with
    | error fault => exact .error rfl
    | ok finding => exact .ok ⟨rfl, trivial⟩

theorem persists_twice {σ : Type} (resolver : Resolver σ) :
    (twice resolver).Persists fun _ _ => True where
  found := by
    rintro scope _ name _ _ element _ rfl _ _ _ rfl
    rfl
  exposed := by
    rintro scope _ _ name _ element _ rfl _ _ _ rfl
    rfl

variable {σ τ : Type} (c : Lockstep σ τ) {scope other : Scope} {line otherLine : Line}

/-- The standings of a line, and those of the line with a newline at its end. -/
inductive StandingsEnded :
    List (Standing scope line) → List (Standing other otherLine) → Prop where
  | nil : StandingsEnded [] [.text "\n"]
  | text (content : String) : StandingsEnded [.text content] [.text (content ++ "\n")]
  | cons {standing : Standing scope line} {otherStanding : Standing other otherLine}
      {rest : List (Standing scope line)} {otherRest : List (Standing other otherLine)}
      (first : c.StandingAlike standing otherStanding) (later : StandingsEnded rest otherRest) :
      StandingsEnded (standing :: rest) (otherStanding :: otherRest)

theorem standings_ended (reflexive : ∀ span, c.spans span span) (same : c.scopes scope other)
    (ended : line.Ended otherLine) :
    InStep c.states (LocatedFault.Alike c.spans c.faults) c.StandingsEnded
      (line.standings c.left scope) (otherLine.standings c.right other) := by
  have each : ∀ (parts : List { part : Part // part ∈ line.parts })
      (others : List { part : Part // part ∈ otherLine.parts }),
      Part.Ended (parts.map Subtype.val) (others.map Subtype.val) →
      InStep c.states (LocatedFault.Alike c.spans c.faults) c.StandingsEnded
        (parts.mapM (line.standing c.left scope)) (others.mapM (otherLine.standing c.right other)) := by
    intro parts others partsEnded
    -- The parts carry that they are on the line, so the induction is on the parts without it.
    generalize partsEq : parts.map Subtype.val = found, othersEq : others.map Subtype.val = otherFound
      at partsEnded
    induction partsEnded generalizing parts others with
    | nil =>
        rcases List.map_eq_nil_iff.mp partsEq with rfl
        rcases List.map_eq_singleton_iff.mp othersEq with ⟨⟨_, member⟩, rfl, rfl⟩
        exact InStep.pure .nil
    | text content =>
        rcases List.map_eq_singleton_iff.mp partsEq with ⟨⟨_, member⟩, rfl, rfl⟩
        rcases List.map_eq_singleton_iff.mp othersEq with ⟨⟨_, otherMember⟩, rfl, rfl⟩
        exact InStep.pure (.text content)
    | cons part _ ih =>
        rcases List.map_eq_cons_iff.mp partsEq with ⟨first, parts, rfl, firstEq, later⟩
        rcases List.map_eq_cons_iff.mp othersEq with ⟨otherFirst, others, rfl, otherEq, otherLater⟩
        have alike : Part.Alike c.spans first.val otherFirst.val := by
          rw [firstEq, otherEq]
          exact Part.Alike.refl reflexive part
        rw [List.mapM_cons, List.mapM_cons]
        apply (c.standing same first otherFirst alike).bind
        intro standing otherStanding standingSame
        apply (ih parts others later otherLater).bind
        intro standings otherStandings standingsEnded
        exact InStep.pure (.cons standingSame standingsEnded)
  apply each
  rw [List.attach_map_subtype_val, List.attach_map_subtype_val]
  exact ended

namespace StandingsEnded

variable {c} {standings : List (Standing scope line)} {others : List (Standing other otherLine)}

theorem drivers (ended : c.StandingsEnded standings others) :
    List.Forall₂ c.DriverAlike (standings.filterMap Standing.driver?)
      (others.filterMap Standing.driver?) := by
  induction ended with
  | nil => exact .nil
  | text content => exact .nil
  | cons first _ ih =>
      cases first with
      | text content => exact ih
      | anchored steps place same => exact ih
      | unbound same => exact .cons same ih

theorem texts (ended : c.StandingsEnded standings others) :
    Tallies (LocatedFault.Alike c.spans Eq)
      (fun texts otherTexts => String.join otherTexts = String.join texts ++ "\n")
      (allOrError (standings.filterMap Standing.emit?))
      (allOrError (others.filterMap Standing.emit?)) := by
  have prepended : ∀ {first otherFirst : Except LocatedFault String}
      {rest otherRest : List (Except LocatedFault String)},
      Tallies (LocatedFault.Alike c.spans Eq) Eq first otherFirst →
      Tallies (LocatedFault.Alike c.spans Eq)
        (fun texts otherTexts => String.join otherTexts = String.join texts ++ "\n")
        (allOrError rest) (allOrError otherRest) →
      Tallies (LocatedFault.Alike c.spans Eq)
        (fun texts otherTexts => String.join otherTexts = String.join texts ++ "\n")
        (allOrError (first :: rest)) (allOrError (otherFirst :: otherRest)) := by
    intro first otherFirst rest otherRest firstSame restSame
    rw [allOrError_cons, allOrError_cons]
    apply firstSame.bind
    rintro text _ rfl
    apply restSame.bind
    intro texts otherTexts joined
    apply Tallies.ok
    rw [String.join_cons, String.join_cons, joined, String.append_assoc]
  induction ended with
  | nil => exact .ok rfl
  | text content => exact .ok (by simp)
  | cons first _ ih =>
      cases first with
      | text content => exact prepended (.ok rfl) ih
      | anchored steps place same => exact prepended (c.anchorText steps place same) ih
      | unbound same => exact ih

theorem alike (ended : c.StandingsEnded standings others) :
    c.StandingsAlike (fun text otherText => otherText = text ++ "\n") standings others := by
  refine ⟨ended.drivers, ?_⟩
  apply ended.texts.bind
  intro texts otherTexts joined
  exact .ok joined

end StandingsEnded

theorem linesInStep_of_ended (reflexive : ∀ span, c.spans span span) (ended : line.Ended otherLine) :
    c.LinesInStep (fun text other => other = text ++ "\n") line otherLine :=
  fun _ _ same => (c.standings_ended reflexive same ended).mono fun _ _ standings => standings.alike

end Lockstep

/-- Errors with the same fault, message and bytes, whatever the sources are. -/
structure Error.Agrees (error other : Error) : Prop where
  fault : error.fault = other.fault
  message : error.message = other.message
  span : error.place.map Place.span = other.place.map Place.span

theorem Error.agrees_ofLocated (source otherSource : String) (located : LocatedFault) :
    (ofLocated source located).Agrees (ofLocated otherSource located) :=
  ⟨rfl, rfl, rfl⟩

theorem eq_map_of_rel {pieces others : List (Option String)}
    (each : List.Forall₂ (Option.Rel fun text other => other = text ++ "\n") pieces others) :
    others = pieces.map (Option.map (· ++ "\n")) := by
  induction each with
  | nil => rfl
  | cons first _ ih =>
      rcases first with same | _
      · rw [same, ih]
        rfl
      · rw [ih]
        rfl

namespace Template

/-- The pieces that a template emits for a root object under a name, without the separators. -/
def expandPieces (template : Template) (name : String) (root : Object) :
    Except Error (List (Option String)) :=
  let expansion := template.body.expandPiecesAfter Resolver.remembering (Scope.root name root) []
  (expansion.run.run []).1.mapError (Error.ofLocated template.source)

theorem expandLines_eq_map (separator : String) (template : Template) (name : String)
    (root : Object) : template.expandLines separator name root =
      (template.expandPieces name root).map (fillIn separator) := by
  unfold expandLines expandPieces Body.expand
  rw [Body.expandAfter_eq_fillIn]
  simp only [ExceptT.run_map, StateT.run_map]
  generalize (Body.expandPiecesAfter Resolver.remembering (Scope.root name root) []
    template.body).run.run [] = outcome
  rcases outcome with ⟨_ | _, _⟩ <;> rfl

theorem tallies_expandPieces {template other : Template} (ended : template.body.Ended other.body)
    (name : String) (root : Object) :
    Tallies Error.Agrees (fun pieces others => others = pieces.map (Option.map (· ++ "\n")))
      (template.expandPieces name root) (other.expandPieces name root) := by
  let c := Lockstep.twice Resolver.remembering
  have matching : Body.Matches c.spans (c.LinesInStep fun text other => other = text ++ "\n")
      (fun text other => other = text ++ "\n") template.body other.body :=
    ended.mono fun _ _ => c.linesInStep_of_ended fun _ => rfl
  have inStep := c.expandPiecesAfter (Lockstep.persists_twice _) (Eq.refl (Scope.root name root)) .nil
    matching fun _ _ => trivial
  apply ((inStep [] [] rfl).1.mono (fun _ _ same => same) fun _ _ => eq_map_of_rel).mapError
  rintro ⟨fault, span⟩ ⟨_, _⟩ ⟨faultSame, spanSame⟩
  cases faultSame
  cases spanSame
  exact Error.agrees_ofLocated _ _ _

theorem tallies_ofText? {d : Delimiters} (inLine : d.InLine) {lines : List String}
    (each : ∀ line ∈ lines, '\n' ∉ line.toList) :
    Tallies Error.Agrees (fun template other => template.body.Ended other.body) (ofLines? d lines)
      (ofText? d (String.join (lines.map (· ++ "\n")))) := by
  have texts : Text.lines (String.join (lines.map (· ++ "\n"))).toList =
      (lines.map String.toList).map (· ++ ['\n']) := by
    have ended : (fun line : String => (line ++ "\n").toList) =
        fun line => line.toList ++ ['\n'] :=
      funext fun _ => String.toList_append
    have textsInLine : ∀ text ∈ lines.map String.toList, '\n' ∉ text := by
      simpa using each
    rw [String.toList_join, List.flatMap_map, ended, ← Text.lines_flatMap_newline textsInLine,
      List.flatMap_map]
  have bodies := Body.ended_ofLines?
    (SourceLine.forall₂_ended_place inLine (lines.map String.toList) 0)
  rw [← texts] at bodies
  unfold ofLines? ofText? ofSourceLines?
  generalize Body.ofLines? ((SourceLine.place 1 0 _).map _) = body,
    Body.ofLines? ((SourceLine.place 0 0 _).map _) = otherBody at bodies
  rcases bodies with ended | @⟨located, _, rfl⟩
  · exact .ok ended
  · exact .error (Error.agrees_ofLocated _ _ located)

end Template

/-- Lines and the text in which a newline ends each of them compile together or fail for the same
reason at the same bytes.  Expanded with any separator, they fail for the same reason at the same
bytes, or the text emits what the lines emit with newlines everywhere but at the separators, the
places of which are the same for all separators. -/
theorem Engine.tallies_compile (engine : Engine) (inLine : engine.delimiters.InLine)
    {lines : List String} (each : ∀ line ∈ lines, '\n' ∉ line.toList) :
    Tallies Error.Agrees
      (fun template other => ∀ name root,
        (∃ pieces : List (Option String), ∀ separator,
          (engine.withSeparator separator).renderLines template name root =
              .ok (pieces.map (·.getD separator)) ∧
            (engine.withSeparator separator).renderLines other name root =
              .ok (pieces.map fun piece => (piece.map (· ++ "\n")).getD separator)) ∨
        ∃ error otherError, error.Agrees otherError ∧ ∀ separator,
          (engine.withSeparator separator).renderLines template name root = .error error ∧
            (engine.withSeparator separator).renderLines other name root = .error otherError)
      (engine.compileLines lines) (engine.compile (String.join (lines.map (· ++ "\n")))) := by
  apply (Template.tallies_ofText? inLine each).mono fun _ _ same => same
  intro template other ended name root
  have tallies := Template.tallies_expandPieces ended name root
  have expanded : ∀ separator (template : Template),
      (engine.withSeparator separator).renderLines template name root =
        (template.expandPieces name root).map (fillIn separator) :=
    fun separator template => template.expandLines_eq_map separator name root
  simp only [expanded]
  generalize template.expandPieces name root = result, other.expandPieces name root = otherResult
    at tallies
  rcases tallies with @⟨pieces, _, rfl⟩ | same
  · refine Or.inl ⟨pieces, fun separator => ⟨rfl, ?_⟩⟩
    rw [Except.map, fillIn, List.map_map]
    rfl
  · exact Or.inr ⟨_, _, same, fun _ => ⟨rfl, rfl⟩⟩

/-- Two groups, of which only the second has a tag. -/
def unevenGroups : Object :=
  .mk [("groups", .relation [.mk [("label", .value (.string "a")), ("tags", .relation [])],
    .mk [("label", .value (.string "b")),
      ("tags", .relation [.mk [("name", .value (.string "x"))]])]])]

/-- The lines of a group with its tags. -/
def groupThenTags : Template :=
  ⟨"{group.label}:\n  {tag.name}",
    .line ⟨[.placeholder ⟨⟨"group", ⟨1, 6⟩⟩, [⟨"label", ⟨7, 12⟩⟩], ⟨0, 13⟩⟩, .text ":"], ⟨0, 14⟩⟩
      (.line ⟨[.text "  ", .placeholder ⟨⟨"tag", ⟨18, 21⟩⟩, [⟨"name", ⟨22, 26⟩⟩], ⟨17, 27⟩⟩],
        ⟨15, 27⟩⟩ .nil)⟩

theorem compileLines_groupThenTags :
    Engine.compileLines {} ["{group.label}:", "  {tag.name}"] = .ok groupThenTags := by
  decide +kernel

theorem compile_groupThenTags : ∃ template,
    Engine.compile {} "{group.label}:\n  {tag.name}\n" = .ok template ∧
      ∀ separator, (Engine.withSeparator {} separator).renderLines template "root" unevenGroups =
        .ok ["a:\n", separator, "b:\n", "  x\n"] := by
  have inLine : Delimiters.standard.InLine := ⟨by decide, by decide, by decide⟩
  have tallies := Engine.tallies_compile {} inLine
    (show ∀ line ∈ ["{group.label}:", "  {tag.name}"], '\n' ∉ line.toList by decide)
  rw [compileLines_groupThenTags] at tallies
  change Tallies _ _ _ (Engine.compile {} "{group.label}:\n  {tag.name}\n") at tallies
  generalize Engine.compile {} "{group.label}:\n  {tag.name}\n" = compiled at tallies ⊢
  rcases tallies with ⟨same⟩
  refine ⟨_, rfl, fun separator => ?_⟩
  have dashed : (Engine.withSeparator {} "-").renderLines groupThenTags "root" unevenGroups =
      .ok ["a:", "-", "b:", "  x"] := by
    rw [Engine.renderLines, Template.expandLines, Resolver.remembering_eq_insertionSort]
    decide +kernel
  have dotted : (Engine.withSeparator {} ".").renderLines groupThenTags "root" unevenGroups =
      .ok ["a:", ".", "b:", "  x"] := by
    rw [Engine.renderLines, Template.expandLines, Resolver.remembering_eq_insertionSort]
    decide +kernel
  rcases same "root" unevenGroups with ⟨pieces, filled⟩ | ⟨_, _, _, failed⟩
  · have withDash := Except.ok.inj ((filled "-").1.symm.trans dashed)
    have withDot := Except.ok.inj ((filled ".").1.symm.trans dotted)
    have places : pieces = [some "a:", none, some "b:", some "  x"] :=
      eq_of_fillIn_eq (show "-" ≠ "." by decide) withDash withDot
    rw [(filled separator).2, places]
    rfl
  · cases dashed.symm.trans (failed "-").1

end GraphTemplate
