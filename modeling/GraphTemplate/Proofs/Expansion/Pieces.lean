import GraphTemplate.Expansion
import Mathlib.Data.List.Forall2

/-!
# Pieces of an expansion

Where separators stand in an expansion does not depend on the separator.  `Line.expandPieces` and
`Body.expandPieces` follow the expansion but leave the places of the separators open; an expansion is
what they give with the separator filled in.
-/

namespace GraphTemplate

/-- The texts of pieces, with a separator in the places that are left open. -/
def fillIn (separator : String) (pieces : List (Option String)) : List String :=
  pieces.map (·.getD separator)

theorem map_intercalate {α β : Type} (f : α → β) (between : List α) (blocks : List (List α)) :
    (between.intercalate blocks).map f = (between.map f).intercalate (blocks.map (List.map f)) := by
  induction blocks with
  | nil => rfl
  | cons block rest ih =>
      cases rest with
      | nil => simp [List.intercalate]
      | cons next more =>
          simp only [List.intercalate, List.map_cons, List.intersperse_cons_cons, List.flatten_cons,
            List.map_append] at ih ⊢
          rw [ih]

theorem rel_intercalate {α β : Type} {related : α → β → Prop} {between : List α}
    {otherBetween : List β} {blocks : List (List α)} {otherBlocks : List (List β)}
    (betweenSame : List.Forall₂ related between otherBetween)
    (each : List.Forall₂ (List.Forall₂ related) blocks otherBlocks) :
    List.Forall₂ related (between.intercalate blocks) (otherBetween.intercalate otherBlocks) := by
  induction each with
  | nil => exact .nil
  | @cons block other rest otherRest first later ih =>
      rcases later with _ | ⟨_, _⟩
      · simpa [List.intercalate] using first
      · simp only [List.intercalate, List.intersperse_cons_cons, List.flatten_cons] at ih ⊢
        exact List.rel_append first (List.rel_append betweenSame ih)

theorem fillIn_eq_of_rel_eq (separator : String) {pieces others : List (Option String)}
    (same : List.Forall₂ (Option.Rel Eq) pieces others) :
    fillIn separator pieces = fillIn separator others := by
  induction same with
  | nil => rfl
  | cons first _ ih =>
      rcases first with same | _
      · rw [same]
        exact congrArg (_ :: ·) ih
      · exact congrArg (separator :: ·) ih

/-- Pieces are told apart by filling in two different separators. -/
theorem eq_of_fillIn_eq {separator other : String} (different : separator ≠ other)
    {pieces others : List (Option String)} (same : fillIn separator pieces = fillIn separator others)
    (otherSame : fillIn other pieces = fillIn other others) : pieces = others := by
  unfold fillIn at same otherSame
  induction pieces generalizing others with
  | nil => exact (List.map_eq_nil_iff.mp same.symm).symm
  | cons piece rest ih =>
      rcases others with _ | ⟨second, more⟩
      · cases same
      · simp only [List.map_cons, List.cons.injEq] at same otherSame
        rw [ih same.2 otherSame.2]
        rcases piece with _ | text <;> rcases second with _ | secondText
        · rfl
        · exact absurd (same.1.trans otherSame.1.symm) different
        · exact absurd (same.1.symm.trans otherSame.1) different
        · rw [show text = secondText from same.1]

theorem mapM_map_right {m : Type → Type} [Monad m] [LawfulMonad m] {α β γ : Type} (f : β → γ)
    (step : α → m β) (items : List α) :
    items.mapM (fun item => f <$> step item) = List.map f <$> items.mapM step := by
  induction items with
  | nil => simp
  | cons item rest ih => simp [ih]

variable {σ : Type}

/-- The pieces to which consecutive lines with placeholders are expanded. -/
def Line.expandPieces (resolver : Resolver σ) (scope : Scope) :
    List Line → Expansion σ (List (Option String))
  | [] => return []
  | line :: rest => do
      let standings ← line.standings resolver scope
      match Driver.shortest? (standings.filterMap Standing.driver?) with
      | none => do
          let text ← Expansion.ofExcept (emit standings)
          return some text :: (← expandPieces resolver scope rest)
      | some driver => do
          let elements ← Expansion.ofExcept ((scope.elements driver.route).mapError
            fun fault => ⟨fault, driver.ident.span⟩)
          let count ← countDeeper resolver scope driver.route elements.isEmpty rest
          let blocks ← elements.mapM fun element =>
            expandPieces resolver (scope.bind driver.ident.name element)
              (line :: rest.take count)
          let between := if count = 0 then [] else [none]
          return between.intercalate blocks ++
            (← expandPieces resolver scope (rest.drop count))
termination_by lines => unboundUses scope lines + lines.length
decreasing_by
  · exact unboundUses_drop_add_length_lt scope line rest 0
  · exact unboundUses_group_add_length_lt driver rest count element
  · exact unboundUses_drop_add_length_lt scope line rest count

theorem Line.expandRun_eq_fillIn (resolver : Resolver σ) (separator : String) (scope : Scope)
    (lines : List Line) : expandRun resolver separator scope lines =
      fillIn separator <$> expandPieces resolver scope lines := by
  induction scope, lines using Line.expandPieces.induct with
  | case1 scope =>
      rw [expandRun, expandPieces, map_pure]
      rfl
  | case2 scope line rest emitted repeated later =>
      rw [expandRun, expandPieces, map_bind]
      congr
      funext standings
      generalize Driver.shortest? (standings.filterMap Standing.driver?) = driver?
      rcases driver? with _ | driver
      · simp only [map_bind, map_pure, emitted, bind_map_left]
        rfl
      · simp only [map_bind]
        congr
        funext elements
        congr
        funext count
        have blocks : (elements.mapM fun element => expandRun resolver separator
              (scope.bind driver.ident.name element) (line :: rest.take count)) =
            List.map (fillIn separator) <$> elements.mapM fun element =>
              expandPieces resolver (scope.bind driver.ident.name element)
                (line :: rest.take count) := by
          simp only [repeated driver count]
          exact mapM_map_right _ _ elements
        have between : (if count = 0 then [] else [separator]) =
            fillIn separator (if count = 0 then [] else [none]) := by
          split <;> rfl
        simp only [blocks, later count, between, bind_map_left, map_pure]
        congr
        funext blocks
        congr
        funext pieces
        rw [fillIn, fillIn, fillIn, List.map_append, map_intercalate]
        rfl

namespace Body

/-- The pieces to which a body is expanded that comes after lines with placeholders. -/
def expandPiecesAfter (resolver : Resolver σ) (scope : Scope) (run : List Line) :
    Body → Expansion σ (List (Option String))
  | nil => Line.expandPieces resolver scope run
  | line content rest => expandPiecesAfter resolver scope (run ++ [content]) rest
  | text content _ rest => do
      let before ← Line.expandPieces resolver scope run
      let after ← expandPiecesAfter resolver scope [] rest
      return before ++ some content :: after
  | loop relation element inner rest => do
      let before ← Line.expandPieces resolver scope run
      let elements ← loopElements resolver scope relation element
      let blocks ← elements.mapM fun object =>
        expandPiecesAfter resolver (scope.bind element object) [] inner
      let after ← expandPiecesAfter resolver scope [] rest
      return before ++ blocks.flatten ++ after

theorem expandAfter_eq_fillIn (resolver : Resolver σ) (separator : String) (scope : Scope)
    (run : List Line) (body : Body) : body.expandAfter resolver separator scope run =
      fillIn separator <$> body.expandPiecesAfter resolver scope run := by
  induction body generalizing scope run with
  | nil => exact Line.expandRun_eq_fillIn resolver separator scope run
  | line content rest ih => exact ih scope (run ++ [content])
  | text content span rest ih =>
      simp only [expandAfter, expandPiecesAfter, Line.expandRun_eq_fillIn, ih, map_bind,
        bind_map_left, map_pure]
      congr
      funext before
      congr
      funext after
      simp [fillIn]
  | loop relation element inner rest innerIh restIh =>
      simp only [expandAfter, expandPiecesAfter, Line.expandRun_eq_fillIn, innerIh, restIh,
        mapM_map_right, map_bind, bind_map_left, map_pure]
      congr
      funext before
      congr
      funext elements
      congr
      funext blocks
      congr
      funext after
      simp only [fillIn, List.map_append, List.map_flatten]
      rfl

end Body

end GraphTemplate
