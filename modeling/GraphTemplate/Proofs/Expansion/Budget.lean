import GraphTemplate.Proofs.Expansion.Invariant
import Mathlib.Data.Finset.Card
import Mathlib.Data.Finset.Dedup

/-!
# Expanding within budgets

Whether an expansion comes to an end is seen by counting.  An attempt is told beforehand how often
lines may be taken up again inside one another and how deep loops may lie.  It gives up when it would
exceed this; also when a line with its group is none of the lines that are left, or more than these;
and when a name is about to be bound that the group does not use or that is bound already.

No attempt is given up.  For lines that are taken up again, as many times are enough as they use
different names that are not bound yet, and for loops the depth to which they lie in the template.
-/

namespace GraphTemplate

/-- A step of an expansion that can be given up. -/
abbrev Attempt (σ α : Type) := OptionT (Expansion σ) α

namespace Attempt

variable {σ α β : Type}

/-- A step that is not given up. -/
def of (step : Expansion σ α) : Attempt σ α :=
  OptionT.lift step

theorem of_pure (value : α) : of (pure value : Expansion σ α) = pure value :=
  liftM_pure (m := Expansion σ) (n := OptionT (Expansion σ)) value

theorem of_bind (step : Expansion σ α) (next : α → Expansion σ β) :
    of (step >>= next) = of step >>= fun value => of (next value) :=
  liftM_bind (m := Expansion σ) (n := OptionT (Expansion σ)) step next

theorem of_mapM (f : α → Expansion σ β) (items : List α) :
    of (items.mapM f) = items.mapM fun item => of (f item) := by
  induction items with
  | nil => simp only [List.mapM_nil, of_pure]
  | cons item rest ih => simp only [List.mapM_cons, of_bind, of_pure, ih]

theorem guard_bind {condition : Prop} [Decidable condition] (holds : condition)
    (next : Unit → Attempt σ α) : (guard condition >>= next) = next () := by
  rw [guard, if_pos holds, pure_bind]

theorem guard_congr {condition : Prop} [Decidable condition] {next other : Unit → Attempt σ α}
    (same : condition → next () = other ()) :
    (guard condition >>= next) = guard condition >>= other := by
  by_cases holds : condition
  · rw [guard_bind holds, guard_bind holds, same holds]
  · rw [guard, if_neg holds]
    rfl

theorem run_of_bind (step : Expansion σ α) (next : α → Attempt σ β) :
    (of step >>= next).run = step >>= fun value => (next value).run := by
  simp [of, Option.elimM]

/-- What comes behind a step matters only for the values that the step gives. -/
theorem bind_congr {step : Expansion σ α} {f g : α → Attempt σ β} {values : α → Prop}
    (keeps : Keeps (fun _ => True) (fun _ => True) values step)
    (same : ∀ value, values value → f value = g value) : (of step >>= f) = of step >>= g := by
  apply OptionT.ext
  rw [run_of_bind, run_of_bind]
  exact keeps.bind_congr fun value holds => congrArg OptionT.run (same value holds)

end Attempt

namespace Line

variable {σ : Type}

/-- The names that the lines use and that the scope does not bind. -/
def unboundNames (scope : Scope) (lines : List Line) : Finset String :=
  (lines.flatMap roots).toFinset.filter fun name => scope.lookup? name = none

/-- Expands the first of some lines and, if it has an unbound name, the lines behind it that are
repeated together with it.  The texts come with the number of lines that they are made of.  A
repetition is given up unless the name that it binds is an unbound name of the group. -/
def attemptFirst (resolver : Resolver σ) (separator : String)
    (again : Scope → List Line → Attempt σ (List String)) (scope : Scope) (line : Line)
    (rest : List Line) : Attempt σ (List String × Nat) := do
  let standings ← .of (line.standings resolver scope)
  match Driver.shortest? (standings.filterMap Standing.driver?) with
  | none => do
      let text ← .of (.ofExcept (emit standings))
      return ([text], 1)
  | some driver => do
      let elements ← .of (.ofExcept ((scope.elements driver.route).mapError
        fun fault => ⟨fault, driver.ident.span⟩))
      let count ← .of (countDeeper resolver scope driver.route elements.isEmpty rest)
      let group := line :: rest.take count
      let blocks ← elements.mapM fun element => do
        guard (driver.ident.name ∈ unboundNames scope group)
        again (scope.bind driver.ident.name element) group
      let between := if count = 0 then [] else [separator]
      return (between.intercalate blocks, count + 1)

/-- Expands the first lines, then the first of those that are left, and so on for a number of times at
most.  This is given up if the first lines are none at all or more than are left. -/
def attemptLines (resolver : Resolver σ) (separator : String)
    (again : Scope → List Line → Attempt σ (List String)) (scope : Scope) :
    Nat → List Line → Attempt σ (List String)
  | _, [] => return []
  | 0, _ :: _ => failure
  | times + 1, line :: rest => do
      let (texts, consumed) ← attemptFirst resolver separator again scope line rest
      guard (1 ≤ consumed ∧ consumed ≤ (line :: rest).length)
      return texts ++ (← attemptLines resolver separator again scope times
        ((line :: rest).drop consumed))

/-- Expands consecutive lines, whose groups may be taken up again inside one another a number of times
at most. -/
def attemptRun (resolver : Resolver σ) (separator : String) :
    Nat → Scope → List Line → Attempt σ (List String)
  | 0, scope, lines =>
      attemptLines resolver separator (fun _ _ => failure) scope lines.length lines
  | nested + 1, scope, lines =>
      attemptLines resolver separator (attemptRun resolver separator nested) scope lines.length
        lines

section

variable {resolver : Resolver σ} {separator : String} {scope : Scope}

theorem mem_unboundNames {lines : List Line} {name : String} :
    name ∈ unboundNames scope lines ↔
      name ∈ lines.flatMap roots ∧ scope.lookup? name = none := by
  simp [unboundNames]

theorem unboundNames_subset {fewer lines : List Line} (inside : fewer ⊆ lines) :
    unboundNames scope fewer ⊆ unboundNames scope lines := by
  intro name member
  rw [mem_unboundNames] at member ⊢
  rcases List.mem_flatMap.mp member.1 with ⟨line, lineMem, used⟩
  exact ⟨List.mem_flatMap.mpr ⟨line, inside lineMem, used⟩, member.2⟩

/-- Where an unbound name has been bound there are fewer of them. -/
theorem card_unboundNames_bind_lt {fewer lines : List Line} (inside : fewer ⊆ lines) {name : String}
    (member : name ∈ unboundNames scope lines) (element : Object) :
    (unboundNames (scope.bind name element) fewer).card < (unboundNames scope lines).card := by
  apply Finset.card_lt_card
  rw [Finset.ssubset_iff_of_subset]
  · refine ⟨name, member, ?_⟩
    simp [mem_unboundNames, Scope.lookup?_bind]
  · intro other otherMem
    rw [mem_unboundNames, Scope.lookup?_bind] at otherMem
    apply unboundNames_subset inside
    rw [mem_unboundNames]
    split at otherMem
    · cases otherMem.2
    · exact otherMem

theorem keeps_countDeeper_le (resolver : Resolver σ) (scope : Scope) (route : Route)
    (isEmpty : Bool) (lines : List Line) :
    Keeps (fun _ => True) (fun _ => True) (fun count => count ≤ lines.length)
      (countDeeper resolver scope route isEmpty lines) := by
  induction lines with
  | nil => exact Keeps.pure (Nat.le_refl 0)
  | cons line rest ih =>
      rw [countDeeper]
      apply (Keeps.any _).bind
      rintro (_ | _) _
      · exact Keeps.pure (Nat.zero_le _)
      · apply ih.bind
        intro count le
        exact Keeps.pure (Nat.succ_le_succ le)

theorem driver_mem_unboundNames {line : Line} (driver : Driver scope line) (more : List Line) :
    driver.ident.name ∈ unboundNames scope (line :: more) :=
  mem_unboundNames.mpr ⟨List.mem_append_left _ driver.mem_roots, driver.unbound⟩

/-- The groups of lines are expanded as they should be once one more name is bound. -/
def Faithful (resolver : Resolver σ) (separator : String)
    (again : Scope → List Line → Attempt σ (List String)) (scope : Scope) (lines : List Line) :
    Prop :=
  ∀ name ∈ unboundNames scope lines, ∀ element group, group ⊆ lines →
    again (scope.bind name element) group =
      .of (expandRun resolver separator (scope.bind name element) group)

variable {again : Scope → List Line → Attempt σ (List String)}

theorem Faithful.of_subset {fewer lines : List Line} (inside : fewer ⊆ lines)
    (faithful : Faithful resolver separator again scope lines) :
    Faithful resolver separator again scope fewer :=
  fun name member element group groupInside =>
    faithful name (unboundNames_subset inside member) element group
      (List.Subset.trans groupInside inside)

/-- An expansion begins with the first lines, which are one at least, and goes on with the others. -/
theorem attemptFirst_bind {line : Line} {rest : List Line}
    (faithful : Faithful resolver separator again scope (line :: rest)) :
    (do let (texts, consumed) ← attemptFirst resolver separator again scope line rest
        guard (1 ≤ consumed ∧ consumed ≤ (line :: rest).length)
        let others ← .of (expandRun resolver separator scope ((line :: rest).drop consumed))
        return texts ++ others) =
      .of (expandRun resolver separator scope (line :: rest)) := by
  rw [attemptFirst, expandRun]
  simp only [bind_assoc, Attempt.of_bind]
  refine bind_congr fun standings => ?_
  -- Without an unbound name the line is expanded by itself, otherwise with the group behind it.
  rcases Driver.shortest? (standings.filterMap Standing.driver?) with _ | driver
  · simp only [bind_assoc, Attempt.of_bind, pure_bind]
    refine bind_congr fun text => ?_
    rw [Attempt.guard_bind ⟨Nat.le_refl 1, by simp⟩, List.drop_one, List.tail_cons]
    simp only [Attempt.of_pure, List.singleton_append]
  · simp only [bind_assoc, Attempt.of_bind, pure_bind]
    refine bind_congr fun elements => ?_
    apply Attempt.bind_congr (keeps_countDeeper_le resolver scope _ _ rest)
    intro count le
    have group : line :: rest.take count ⊆ line :: rest :=
      List.cons_subset_cons line (List.take_subset count rest)
    have repeated : (fun element => do
        guard (driver.ident.name ∈ unboundNames scope (line :: rest.take count))
        again (scope.bind driver.ident.name element) (line :: rest.take count)) =
        fun element => Attempt.of (expandRun resolver separator
          (scope.bind driver.ident.name element) (line :: rest.take count)) := by
      funext element
      rw [Attempt.guard_bind (driver_mem_unboundNames driver _)]
      exact faithful _ (driver_mem_unboundNames driver rest) element _ group
    rw [repeated, Attempt.of_mapM]
    refine bind_congr fun blocks => ?_
    rw [Attempt.guard_bind ⟨Nat.le_add_left 1 count, Nat.succ_le_succ le⟩, List.drop_succ_cons]
    simp only [Attempt.of_pure]

theorem attemptLines_eq {times : Nat} {lines : List Line} (enough : lines.length ≤ times)
    (faithful : Faithful resolver separator again scope lines) :
    attemptLines resolver separator again scope times lines =
      .of (expandRun resolver separator scope lines) := by
  induction times generalizing lines with
  | zero =>
      rw [List.length_eq_zero_iff.mp (Nat.le_zero.mp enough), expandRun]
      exact (Attempt.of_pure []).symm
  | succ times ih =>
      rcases lines with _ | ⟨line, rest⟩
      · rw [expandRun]
        exact (Attempt.of_pure []).symm
      · rw [attemptLines, ← attemptFirst_bind faithful]
        refine bind_congr fun first => ?_
        rcases first with ⟨texts, consumed⟩
        apply Attempt.guard_congr
        rintro ⟨some, inside⟩
        rw [ih _ (faithful.of_subset (List.drop_subset _ _))]
        rw [List.length_drop]
        omega

/-- Lines are taken up again inside one another only as often as they have unbound names. -/
theorem attemptRun_eq {nested : Nat} {lines : List Line}
    (enough : (unboundNames scope lines).card ≤ nested) :
    attemptRun resolver separator nested scope lines =
      .of (expandRun resolver separator scope lines) := by
  induction nested generalizing scope lines with
  | zero =>
      have none : unboundNames scope lines = ∅ := Finset.card_eq_zero.mp (Nat.le_zero.mp enough)
      apply attemptLines_eq (Nat.le_refl _)
      intro name member
      simp [none] at member
  | succ nested ih =>
      apply attemptLines_eq (Nat.le_refl _)
      intro name member element group inside
      -- The element that is bound uses up one of the unbound names, and one level with it.
      apply ih
      have fewer := card_unboundNames_bind_lt inside member element
      omega

end

end Line

namespace Body

variable {σ : Type}

/-- How many loops there are inside one another. -/
def loopDepth : Body → Nat
  | nil => 0
  | text _ _ rest => rest.loopDepth
  | line _ rest => rest.loopDepth
  | loop _ _ inner rest => max (inner.loopDepth + 1) rest.loopDepth

/-- Expands a body that comes after lines that are still to be expanded, where loops may lie inside
one another a number of times at most. -/
def attemptAfter (resolver : Resolver σ) (separator : String) (depth : Nat) (scope : Scope)
    (run : List Line) : Body → Attempt σ (List String)
  | nil => Line.attemptRun resolver separator (Line.unboundNames scope run).card scope run
  | line content rest => attemptAfter resolver separator depth scope (run ++ [content]) rest
  | text content _ rest => do
      let before ← Line.attemptRun resolver separator (Line.unboundNames scope run).card scope run
      let after ← attemptAfter resolver separator depth scope [] rest
      return before ++ content :: after
  | loop relation element inner rest => do
      let before ← Line.attemptRun resolver separator (Line.unboundNames scope run).card scope run
      let elements ← .of (loopElements resolver scope relation element)
      let blocks ← elements.mapM fun object =>
        match depth with
        | 0 => failure
        | depth + 1 => attemptAfter resolver separator depth (scope.bind element object) [] inner
      let after ← attemptAfter resolver separator depth scope [] rest
      return before ++ blocks.flatten ++ after

/-- Loops are expanded inside one another only as often as they lie inside one another. -/
theorem attemptAfter_eq {resolver : Resolver σ} {separator : String} {depth : Nat} {scope : Scope}
    {run : List Line} {body : Body} (enough : body.loopDepth ≤ depth) :
    body.attemptAfter resolver separator depth scope run =
      .of (body.expandAfter resolver separator scope run) := by
  have runs : ∀ (scope : Scope) (run : List Line),
      Line.attemptRun resolver separator (Line.unboundNames scope run).card scope run =
        .of (Line.expandRun resolver separator scope run) :=
    fun _ _ => Line.attemptRun_eq (Nat.le_refl _)
  induction body generalizing depth scope run with
  | nil => exact runs scope run
  | line content rest ih => exact ih enough
  | text content span rest ih =>
      rw [attemptAfter, expandAfter, runs]
      simp only [Attempt.of_bind, Attempt.of_pure, ih enough]
  | loop relation element inner rest innerIh restIh =>
      rcases Nat.max_le.mp enough with ⟨around, behind⟩
      rcases depth with _ | depth
      · omega
      · rw [attemptAfter, expandAfter, runs]
        simp only [Attempt.of_bind, Attempt.of_pure, Attempt.of_mapM, restIh behind,
          innerIh (Nat.le_of_succ_le_succ around)]

end Body

/-- The pieces of text that a template emits for a root object under a name, unless this is given
up. -/
def Template.attemptLines (separator : String) (template : Template) (name : String)
    (root : Object) : Except Error (Option (List String)) :=
  let attempt := template.body.attemptAfter Resolver.remembering separator template.body.loopDepth
    (Scope.root name root) []
  (attempt.run.run.run []).1.mapError (Error.ofLocated template.source)

/-- An expansion is never given up.  Each line is expanded together with lines that are left, names
are bound only if the group uses them and they are unbound, groups are repeated inside one another
as often as their run has unbound names at most, and loops as often as they lie inside one another
in the template. -/
theorem Template.expandLines_within_budget (separator : String) (template : Template)
    (name : String) (root : Object) : template.attemptLines separator name root =
      (template.expandLines separator name root).map some := by
  have same : template.body.attemptAfter Resolver.remembering separator template.body.loopDepth
        (Scope.root name root) [] =
      .of (template.body.expandAfter Resolver.remembering separator (Scope.root name root) []) :=
    Body.attemptAfter_eq (Nat.le_refl _)
  simp only [attemptLines, expandLines, same, Body.expand]
  generalize template.body.expandAfter Resolver.remembering separator (Scope.root name root) [] =
    step
  have mapped : (Attempt.of step).run = some <$> step := by
    simp [Attempt.of]
  have outcome : ((some <$> step).run.run []).1 = ((step.run.run []).1).map some := by
    rw [ExceptT.run_map, StateT.run_map]
    rfl
  rw [mapped, outcome]
  cases (step.run.run []).1 <;> rfl

end GraphTemplate
