import GraphTemplate.Engine
import GraphTemplate.Proofs.Discovery
import GraphTemplate.Proofs.Expansion.Lockstep
import GraphTemplate.Proofs.Template.Placement
import GraphTemplate.Proofs.Uniformity

/-!
# Enclosing a group in a loop

Lines that are taken as one group by themselves can be enclosed in a loop over the relation of the
group.  The loop finds its elements in another way, and less is remembered when its body begins, but
nothing that was asked before the name of the elements was bound is asked again within.  So both make
the same blocks, one for each element.
-/

namespace GraphTemplate

namespace Line

/-- The blocks that lines make when a name is bound to one element after the other. -/
def blocks (separator : String) (scope : Scope) (name : String) (lines : List Line)
    (elements : List Object) : Expansion Memory (List (List String)) :=
  elements.mapM fun element =>
    expandRun Resolver.remembering separator (scope.bind name element) lines

/-- With nothing remembered, the lines are taken as one group for the elements of a route: their name
has the shortest route of those on the first line, and all lines after it go deeper. -/
def IsGroup (scope : Scope) (name : String) (route : Route) : List Line → Prop
  | [] => False
  | line :: rest => ∃ standings memory driver,
      (line.standings Resolver.remembering scope).run.run [] = (.ok standings, memory) ∧
      Driver.shortest? (standings.filterMap Standing.driver?) = some driver ∧
      driver.ident.name = name ∧ driver.route = route ∧
      ∀ elements, scope.elements route = .ok elements →
        ((countDeeper Resolver.remembering scope route elements.isEmpty rest).run.run memory).1 =
          .ok rest.length

end Line

namespace Scope

/-- The route to a relation that a bound object exposes itself leads to the elements of the relation. -/
theorem elements_of_exposed {scope : Scope} {bound relation : String} {object : Object}
    {elements : List Object} (meaning : scope.lookup? bound = some object)
    (exposed : object.relation? relation = some elements) :
    scope.elements ⟨bound, [relation]⟩ = .ok elements := by
  have all : allOrError ((elements.flatMap (Object.reach [])).map Node.element) = .ok elements := by
    clear exposed
    induction elements with
    | nil => rfl
    | cons element rest ih =>
        simp only [List.flatMap_cons, Object.reach, List.singleton_append, List.map_cons,
          Node.element, allOrError] at ih ⊢
        rw [ih]
        rfl
  simp only [Scope.elements, owner, meaning, Bind.bind, Except.bind, Object.reach,
    Object.attr?_eq_of_relation? exposed]
  exact all

end Scope

/-- All that is remembered was found in one scope. -/
def Memory.FoundIn (scope : Scope) (memory : Memory) : Prop :=
  ∀ entry ∈ memory, ∃ name, entry.1 = scope.question name ∧ scope.discover name = .ok entry.2

/-- The same is remembered of all questions for which a name is bound. -/
def Memory.AgreesOn (name : String) (memory other : Memory) : Prop :=
  ∀ question, name ∈ question.bound → memory.lookup question = other.lookup question

namespace Lockstep

/-- One scope, in which everything that is remembered was found. -/
def within (scope : Scope) : Lockstep Memory Memory where
  left := Resolver.remembering
  right := Resolver.remembering
  states memory other := memory = other ∧ memory.FoundIn scope
  faults := Eq
  spans := Eq
  objects := Eq
  scopes first second := first = scope ∧ second = scope
  answered found name finding := found.discover name = .ok finding
  faults_refl _ := rfl
  category_eq _ _ same := congrArg Fault.category same
  likeness := Object.Likeness.eq
  bindings := by
    rintro _ _ ⟨rfl, rfl⟩
    exact List.forall₂_same.mpr fun _ _ => ⟨rfl, rfl⟩
  find := by
    rintro _ _ name ⟨rfl, rfl⟩ memory _ ⟨rfl, foundIn⟩
    rename_i scope
    rcases known : memory.lookup (scope.question name) with _ | finding
    · rcases found : scope.discover name with fault | finding
      · rw [Resolver.find_failed known found]
        exact ⟨.error rfl, rfl, foundIn⟩
      · rw [Resolver.find_discovered known found]
        refine ⟨.ok ⟨rfl, rfl⟩, rfl, ?_⟩
        intro entry member
        rcases List.mem_cons.mp member with rfl | earlier
        · exact ⟨name, rfl, found⟩
        · exact foundIn entry earlier
    · rw [Resolver.find_remembered known]
      rcases foundIn _ (Memory.mem_of_lookup known) with ⟨asked, same, found⟩
      cases congrArg Question.name same
      exact ⟨.ok ⟨rfl, found⟩, rfl, foundIn⟩

/-- One scope on both sides, in which a name is bound, and memories that agree on the questions that
can be asked there. -/
def bound (name : String) : Lockstep Memory Memory where
  left := Resolver.remembering
  right := Resolver.remembering
  states := Memory.AgreesOn name
  faults := Eq
  spans := Span.Anywhere
  objects := Eq
  scopes first second := first = second ∧ (first.lookup? name).isSome
  answered _ _ _ := True
  faults_refl _ := rfl
  category_eq _ _ same := congrArg Fault.category same
  likeness := Object.Likeness.eq
  bindings := by
    rintro scope _ ⟨rfl, _⟩
    exact List.forall₂_same.mpr fun _ _ => ⟨rfl, rfl⟩
  find := by
    rintro scope _ asked ⟨rfl, isBound⟩ memory other agrees
    have same := agrees (scope.question asked) (Scope.mem_names_iff.mpr isBound)
    rcases known : memory.lookup (scope.question asked) with _ | finding
    · have otherKnown := same.symm.trans known
      rcases found : scope.discover asked with fault | finding
      · rw [Resolver.find_failed known found, Resolver.find_failed otherKnown found]
        exact ⟨.error rfl, agrees⟩
      · rw [Resolver.find_discovered known found, Resolver.find_discovered otherKnown found]
        refine ⟨.ok ⟨rfl, trivial⟩, ?_⟩
        intro question member
        rw [List.lookup_cons, List.lookup_cons, agrees question member]
    · rw [Resolver.find_remembered known, Resolver.find_remembered (same.symm.trans known)]
      exact ⟨.ok ⟨rfl, trivial⟩, agrees⟩

theorem persists_bound (name : String) : (bound name).Persists fun _ _ => True := by
  have stays : ∀ scope other added element otherElement, (bound name).scopes scope other →
      (bound name).objects element otherElement →
      (bound name).scopes (scope.bind added element) (other.bind added otherElement) := by
    rintro scope _ added element _ ⟨rfl, isBound⟩ rfl
    refine ⟨rfl, ?_⟩
    rw [Scope.lookup?_bind]
    split
    · rfl
    · exact isBound
  constructor
  · exact fun _ _ _ _ _ _ _ same _ _ _ objects => stays _ _ _ _ _ same objects
  · exact fun _ _ _ _ _ _ _ same _ _ _ objects => stays _ _ _ _ _ same objects

end Lockstep

namespace Memory

/-- Nothing that was found in a scope answers a question for which another name is bound. -/
theorem FoundIn.agreesOn {scope : Scope} {memory : Memory} {name : String}
    (foundIn : memory.FoundIn scope) (unbound : scope.lookup? name = none) :
    Memory.AgreesOn name [] memory := by
  intro question member
  rcases known : memory.lookup question with _ | finding
  · rfl
  · rcases foundIn _ (Memory.mem_of_lookup known) with ⟨asked, rfl, _⟩
    have isBound := Scope.mem_names_iff.mp member
    simp [unbound] at isBound

end Memory

namespace Line

/-- The same lines make the same blocks, wherever they stand and whatever was found before the name
was bound. -/
theorem toOption_blocks {separator : String} {scope : Scope} {name : String}
    {lines otherLines : List Line} {elements : List Object} {memory : Memory}
    (alike : List.Forall₂ (Line.Alike Span.Anywhere) lines otherLines)
    (foundIn : memory.FoundIn scope) (unbound : scope.lookup? name = none) :
    ((blocks separator scope name otherLines elements).run.run memory).1.toOption =
      ((blocks separator scope name lines elements).run.run []).1.toOption := by
  have inStep : InStep (Memory.AgreesOn name) (LocatedFault.Alike Span.Anywhere Eq)
      (List.Forall₂ Eq) (blocks separator scope name lines elements)
      (blocks separator scope name otherLines elements) := by
    have each : List.Forall₂ Eq elements elements := List.forall₂_same.mpr fun _ _ => rfl
    apply InStep.mapM each
    rintro element _ rfl
    have isBound : (scope.bind name element).lookup? name = some element := by
      rw [Scope.lookup?_bind, if_pos rfl]
    exact (Lockstep.bound name).expandRun (Lockstep.persists_bound name) separator
      ⟨rfl, by rw [isBound, Option.isSome_some]⟩ alike
  have tallies := (inStep [] memory (foundIn.agreesOn unbound)).1
  generalize ((blocks separator scope name lines elements).run.run []).1 = result,
    ((blocks separator scope name otherLines elements).run.run memory).1 = other at tallies ⊢
  rcases tallies with same | _
  · rw [List.forall₂_eq_eq_eq] at same
    exact congrArg some same.symm
  · rfl

section

variable {scope : Scope} {line : Line} {standings : List (Standing scope line)}
  {memory reached : Memory}

/-- The standings of a line in a scope are found there, and so is all that is remembered after it. -/
theorem foundIn_standings (given : (line.standings Resolver.remembering scope).run.run memory =
    (.ok standings, reached)) (foundIn : memory.FoundIn scope) :
    reached.FoundIn scope ∧ ∀ driver, Driver.shortest? (standings.filterMap Standing.driver?) =
      some driver → scope.discover driver.ident.name = .ok (.relation driver.route) := by
  have inStep : InStep _ _ _ (line.standings Resolver.remembering scope)
      (line.standings Resolver.remembering scope) :=
    (Lockstep.within scope).standings ⟨rfl, rfl⟩ (Line.Alike.refl (fun _ => rfl) line)
  have outcome := inStep memory memory ⟨rfl, foundIn⟩
  rw [given] at outcome
  rcases outcome with ⟨⟨each⟩ | _, _, stillFound⟩
  refine ⟨stillFound, ?_⟩
  intro driver shortest
  have chosen := (Lockstep.within scope).shortest? ((Lockstep.within scope).drivers each)
  rw [shortest] at chosen
  rcases chosen with ⟨same⟩
  exact same.answered

theorem foundIn_countDeeper {route : Route} {isEmpty : Bool} {lines : List Line}
    {result : Except LocatedFault Nat}
    (given : (countDeeper Resolver.remembering scope route isEmpty lines).run.run memory =
      (result, reached)) (foundIn : memory.FoundIn scope) : reached.FoundIn scope := by
  have each : List.Forall₂ ((Lockstep.within scope).LinesInStep Eq) lines lines :=
    List.forall₂_same.mpr fun line _ =>
      (Lockstep.within scope).linesInStep_of_alike (Line.Alike.refl (fun _ => rfl) line)
  have inStep : InStep _ _ _ (countDeeper Resolver.remembering scope route isEmpty lines)
      (countDeeper Resolver.remembering scope route isEmpty lines) :=
    (Lockstep.within scope).countDeeper ⟨rfl, rfl⟩ each route isEmpty
  have outcome := inStep memory memory ⟨rfl, foundIn⟩
  rw [given] at outcome
  exact outcome.2.2

end

namespace IsGroup

variable {scope : Scope} {name : String} {route : Route} {lines : List Line}

theorem discover (group : IsGroup scope name route lines) :
    scope.lookup? name = none ∧ scope.discover name = .ok (.relation route) := by
  rcases lines with _ | ⟨line, rest⟩
  · exact group.elim
  · rcases group with ⟨standings, memory, driver, given, shortest, rfl, rfl, _⟩
    exact ⟨driver.unbound, (foundIn_standings given fun _ member => by cases member).2 _ shortest⟩

/-- A group is expanded to its blocks with the separator between them if it has several lines. -/
theorem toOption_expandRun (separator : String) (group : IsGroup scope name route lines) :
    ((expandRun Resolver.remembering separator scope lines).run.run []).1.toOption = do
      let elements ← (scope.elements route).toOption
      let found ← ((blocks separator scope name lines elements).run.run []).1.toOption
      return (if lines.length = 1 then [] else [separator]).intercalate found := by
  rcases lines with _ | ⟨line, rest⟩
  · exact group.elim
  · rcases group with ⟨standings, memory, driver, given, shortest, rfl, rfl, counted⟩
    have foundIn := (foundIn_standings given fun _ member => by cases member).1
    rw [expandRun, run_bind_of_ok _ given]
    simp only [shortest]
    rcases walked : scope.elements driver.route with fault | elements
    · rfl
    · have elementsGiven : (Expansion.ofExcept (σ := Memory) (Except.mapError
          (fun fault => (⟨fault, driver.ident.span⟩ : LocatedFault)) (.ok elements))).run.run memory =
            (.ok elements, memory) := rfl
      rw [run_bind_of_ok _ elementsGiven]
      rcases counting : (countDeeper Resolver.remembering scope driver.route elements.isEmpty
        rest).run.run memory with ⟨count?, reached⟩
      have countEq := counted elements walked
      rw [counting] at countEq
      cases countEq
      rw [run_bind_of_ok _ counting]
      have reflexive : List.Forall₂ (Line.Alike Span.Anywhere) (line :: rest) (line :: rest) :=
        List.forall₂_same.mpr fun line _ => Line.Alike.refl (fun _ => trivial) line
      have same : ((blocks separator scope driver.ident.name (line :: rest) elements).run.run
          reached).1.toOption =
            ((blocks separator scope driver.ident.name (line :: rest) elements).run.run
              []).1.toOption :=
        toOption_blocks reflexive (foundIn_countDeeper counting foundIn) driver.unbound
      have single : (line :: rest).length = 1 ↔ rest.length = 0 := by
        rw [List.length_cons, Nat.add_eq_right]
      rw [List.take_length, List.drop_length, ← blocks]
      change _ = ((blocks separator scope driver.ident.name (line :: rest) elements).run.run
        []).1.toOption >>= _
      rw [← same]
      rcases built : (blocks separator scope driver.ident.name (line :: rest) elements).run.run
        reached with ⟨fault | found, last⟩
      · rw [run_bind_of_error _ built]
        rfl
      · rw [run_bind_of_ok _ built, expandRun]
        simp only [single]
        change some (_ ++ []) = some _
        rw [List.append_nil]

end IsGroup

end Line

namespace Body

theorem expandAfter_ofRun {σ : Type} (resolver : Resolver σ) (separator : String) (scope : Scope)
    (run lines : List Line) :
    (ofRun lines).expandAfter resolver separator scope run =
      Line.expandRun resolver separator scope (run ++ lines) := by
  induction lines generalizing run with
  | nil => rw [List.append_nil, ofRun, List.foldr_nil, expandAfter]
  | cons content rest ih =>
      have further := ih (run ++ [content])
      rw [List.append_assoc] at further
      exact further

variable {rootName name : String} {root : Object} {route : Route} {relation : Ident}

/-- In the scope of the root a loop finds the elements that are found for their name. -/
theorem exists_run_loopElements (same : relation.name = plural name)
    (discovered : (Scope.root rootName root).discover name = .ok (.relation route)) :
    ∃ reached : Memory, reached.FoundIn (Scope.root rootName root) ∧
      (loopElements Resolver.remembering (Scope.root rootName root) relation name).run.run [] =
        (((Scope.root rootName root).elements route).mapError fun fault => ⟨fault, relation.span⟩,
          reached) := by
  have direct : (Scope.root rootName root).relation? relation.name = root.relation? (plural name) := by
    rw [same]
    simp [Scope.relation?, Scope.root, Scope.bindings]
  unfold loopElements
  rw [direct]
  rcases exposed : root.relation? (plural name) with _ | elements
  · refine ⟨[((Scope.root rootName root).question name, .relation route)], ?_, ?_⟩
    · intro entry member
      rw [List.mem_singleton.mp member]
      exact ⟨name, rfl, discovered⟩
    · have unknown : ([] : Memory).lookup ((Scope.root rootName root).question name) = none := rfl
      have found := Resolver.find_discovered unknown discovered
      dsimp only
      rw [run_locate, run_bind_of_ok _ found]
      rfl
  · refine ⟨[], fun _ member => (by cases member), ?_⟩
    have only : LeadsOnly (plural name) [(rootName, root)] ⟨rootName, [plural name]⟩ :=
      LeadsOnly.single_of_exposed (by rw [exposed, Option.isSome_some])
    have shorter : (Scope.root rootName root).discover name =
        .ok (.relation ⟨rootName, [plural name]⟩) :=
      Scope.discover_of_innermost (searchLevel_eq_some_iff.mpr only)
    rw [discovered] at shorter
    cases shorter
    have meaning : (Scope.root rootName root).lookup? rootName = some root :=
      Scope.lookup?_innermost _
    rw [Scope.elements_of_exposed meaning exposed]
    rfl

/-- A loop around lines that stand for one group is expanded to the blocks of the group. -/
theorem toOption_expand_enclosed {lines contents : List Line} (separator : String)
    (same : relation.name = plural name) (alike : List.Forall₂ (Line.Alike Span.Anywhere) lines contents)
    (group : Line.IsGroup (Scope.root rootName root) name route lines) :
    (((loop relation name (ofRun contents) nil).expand Resolver.remembering separator
        (Scope.root rootName root)).run.run []).1.toOption = do
      let elements ← ((Scope.root rootName root).elements route).toOption
      let found ← ((Line.blocks separator (Scope.root rootName root) name lines
        elements).run.run []).1.toOption
      return found.flatten := by
  rcases exists_run_loopElements same group.discover.2 with ⟨reached, foundIn, elementsGiven⟩
  have nothing : (Line.expandRun Resolver.remembering separator (Scope.root rootName root)
      []).run.run [] = (.ok [], []) := by
    rw [Line.expandRun]
    rfl
  rw [expand, expandAfter, run_bind_of_ok _ nothing]
  rcases walked : (Scope.root rootName root).elements route with fault | elements
  · rw [walked] at elementsGiven
    rw [run_bind_of_error _ elementsGiven]
    rfl
  · rw [walked] at elementsGiven
    rw [run_bind_of_ok _ elementsGiven]
    simp only [expandAfter_ofRun, List.nil_append]
    rw [← Line.blocks]
    change _ = ((Line.blocks separator (Scope.root rootName root) name lines elements).run.run
      []).1.toOption >>= _
    rw [← Line.toOption_blocks alike foundIn group.discover.1]
    rcases built : (Line.blocks separator (Scope.root rootName root) name contents elements).run.run
      reached with ⟨fault | found, last⟩
    · rw [run_bind_of_error _ built]
      rfl
    · rw [run_bind_of_ok _ built, expandAfter, Line.expandRun]
      change some (_ ++ []) = some _
      rw [List.append_nil]

end Body

/-- Lines that are taken as one group make, enclosed in a loop over the relation of the group, one
block for each element, and by themselves the same blocks with the separator between them. -/
theorem renderLines_enclosed {engine : Engine} {lines : List String} {opening closing : String}
    {template : Template} {rootName name : String} {root : Object} {route : Route}
    (compiled : engine.compileLines lines = .ok template)
    (areLines : ∀ line ∈ lines, LineClass.IsLine engine.delimiters line)
    (opens : LineClass.IsMarker engine.delimiters true (plural name) opening)
    (closes : LineClass.IsMarker engine.delimiters false (plural name) closing)
    (group : Line.IsGroup (Scope.root rootName root) name route template.body.lines) :
    ∃ enclosed, engine.compileLines (opening :: lines ++ [closing]) = .ok enclosed ∧
      ((∃ texts, engine.renderLines enclosed rootName root = .ok texts) ↔
        ∃ texts, engine.renderLines template rootName root = .ok texts) ∧
      ∀ texts, engine.renderLines template rootName root = .ok texts →
        ∃ elements blocks, (Scope.root rootName root).elements route = .ok elements ∧
          ((Line.blocks engine.separator (Scope.root rootName root) name template.body.lines
            elements).run.run []).1 = .ok blocks ∧
          blocks.length = elements.length ∧
          engine.renderLines enclosed rootName root = .ok blocks.flatten ∧
          texts = (if lines.length = 1 then [] else [engine.separator]).intercalate blocks := by
  have mentioned : ∃ line ∈ template.body.lines, name ∈ line.roots := by
    rcases contents : template.body.lines with _ | ⟨line, rest⟩
    · rw [contents] at group
      exact group.elim
    · rw [contents] at group
      rcases group with ⟨_, _, driver, _, _, rfl, _⟩
      exact ⟨line, List.mem_cons_self, driver.mem_roots⟩
  rcases Template.exists_enclosed compiled areLines opens closes mentioned with
    ⟨enclosed, relation, contents, enclosedCompiled, body, same, alike⟩
  rcases Template.body_of_lines compiled areLines with ⟨classes, ownBody⟩
  refine ⟨enclosed, enclosedCompiled, ?_⟩
  have lengths : template.body.lines.length = lines.length := by
    have sameLength := congrArg List.length classes
    simpa [SourceLine.length_place] using sameLength.symm
  have alone : template.body.expand Resolver.remembering engine.separator
      (Scope.root rootName root) = Line.expandRun Resolver.remembering engine.separator
        (Scope.root rootName root) template.body.lines := by
    have lined := Body.expandAfter_ofRun Resolver.remembering engine.separator
      (Scope.root rootName root) [] template.body.lines
    rwa [← ownBody, List.nil_append] at lined
  simp only [eq_ok_iff_toOption, Engine.renderLines, Template.expandLines, toOption_mapError, alone,
    body, Body.toOption_expand_enclosed engine.separator same alike group,
    group.toOption_expandRun engine.separator, lengths]
  rcases walked : (Scope.root rootName root).elements route with fault | elements
  · simp [Except.toOption]
  · rcases built : ((Line.blocks engine.separator (Scope.root rootName root) name
      template.body.lines elements).run.run []).1 with fault | found
    · simp [Except.toOption, built]
    · have perElement : found.length = elements.length := length_of_mapM built
      simp [Except.toOption, built, perElement]

/-- Two items, of which only the first has tags. -/
def shelf : Object :=
  .mk [("items", .relation [
    .mk [("name", .value (.string "a")), ("tags", .relation [.mk [("label", .value (.string "x"))],
      .mk [("label", .value (.string "y"))]])],
    .mk [("name", .value (.string "b")), ("tags", .relation [])]])]

/-- A line for items and one for their tags. -/
def itemsAndTags : Template :=
  ⟨"{item.name}\n{tag.label}",
    .line ⟨[.placeholder ⟨⟨"item", ⟨1, 5⟩⟩, [⟨"name", ⟨6, 10⟩⟩], ⟨0, 11⟩⟩], ⟨0, 11⟩⟩
      (.line ⟨[.placeholder ⟨⟨"tag", ⟨13, 16⟩⟩, [⟨"label", ⟨17, 22⟩⟩], ⟨12, 23⟩⟩], ⟨12, 23⟩⟩ .nil)⟩

theorem isGroup_itemsAndTags :
    Line.IsGroup (Scope.root "root" shelf) "item" ⟨"root", ["items"]⟩ itemsAndTags.body.lines := by
  refine ⟨_, _, _, rfl, rfl, rfl, rfl, ?_⟩
  intro elements walked
  cases walked
  decide +kernel

theorem renderLines_enclosed_itemsAndTags :
    ∃ enclosed, Engine.compileLines {} ["{$items}", "{item.name}", "{tag.label}", "{items$}"] =
        .ok enclosed ∧
      Engine.renderLines {} enclosed "root" shelf = .ok ["a", "x", "y", "b"] := by
  have compiled : Engine.compileLines {} ["{item.name}", "{tag.label}"] = .ok itemsAndTags := by
    decide +kernel
  have areLines : ∀ line ∈ ["{item.name}", "{tag.label}"],
      LineClass.IsLine Delimiters.standard line := by
    simp only [List.forall_mem_cons]
    refine ⟨⟨⟨[.placeholder ⟨⟨"item", ⟨1, 5⟩⟩, [⟨"name", ⟨6, 10⟩⟩], ⟨0, 11⟩⟩], ⟨0, 11⟩⟩, ?_⟩,
      ⟨⟨[.placeholder ⟨⟨"tag", ⟨1, 4⟩⟩, [⟨"label", ⟨5, 10⟩⟩], ⟨0, 11⟩⟩], ⟨0, 11⟩⟩, ?_⟩, by simp⟩
    · decide +kernel
    · decide +kernel
  have opens : LineClass.IsMarker Delimiters.standard true (plural "item") "{$items}" :=
    ⟨⟨"items", ⟨2, 7⟩⟩, ⟨0, 8⟩, by decide +kernel, rfl⟩
  have closes : LineClass.IsMarker Delimiters.standard false (plural "item") "{items$}" :=
    ⟨⟨"items", ⟨1, 6⟩⟩, ⟨0, 8⟩, by decide +kernel, rfl⟩
  have rendered : Engine.renderLines {} itemsAndTags "root" shelf =
      .ok ["a", "x", "y", "\n", "b"] := by
    rw [Engine.renderLines, Template.expandLines, Resolver.remembering_eq_insertionSort]
    decide +kernel
  rcases renderLines_enclosed compiled areLines opens closes isGroup_itemsAndTags with
    ⟨enclosed, enclosedCompiled, _, each⟩
  rcases each _ rendered with ⟨elements, blocks, walked, built, _, same, _⟩
  cases walked
  have evaluated : blocks = [["a", "x", "y"], ["b"]] := by
    apply Except.ok.inj (built.symm.trans _)
    rw [Line.blocks, Resolver.remembering_eq_insertionSort]
    decide +kernel
  refine ⟨enclosed, enclosedCompiled, ?_⟩
  rw [same, evaluated]
  rfl

end GraphTemplate
