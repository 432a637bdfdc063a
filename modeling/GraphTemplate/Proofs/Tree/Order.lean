import GraphTemplate.Proofs.Tree.Nodes
import Mathlib.Data.List.Flatten

/-!
# The order of concrete paths

The concrete paths of a value are listed depth first.  The paths through a node are listed together,
the path of the node itself before the others.  Two paths of which none begins the other part at some
node, and they are listed in the order of the steps by which they leave it: the keys of a map in the
order in which they were first written, the elements of a list by their positions.
-/

namespace GraphTemplate

/-- Both are listed, the second one somewhere behind the first one. -/
def ListedBefore {α : Type} (items : List α) (first second : α) : Prop :=
  [first, second].Sublist items

namespace ListedBefore

variable {α β : Type} {items : List α} {first second : α}

theorem or_reverse (firstMem : first ∈ items) (secondMem : second ∈ items)
    (different : first ≠ second) : ListedBefore items first second ∨ ListedBefore items second first := by
  rcases List.append_of_mem firstMem with ⟨front, back, rfl⟩
  simp only [List.mem_append, List.mem_cons] at secondMem
  rcases secondMem with inFront | rfl | inBack
  · right
    apply List.Sublist.append (List.singleton_sublist.mpr inFront)
    apply List.singleton_sublist.mpr
    exact List.mem_cons_self
  · exact absurd rfl different
  · left
    apply List.Sublist.trans _ (List.sublist_append_right front _)
    apply List.Sublist.cons_cons
    exact List.singleton_sublist.mpr inBack

theorem of_getElem? {position later : Nat} (lt : position < later)
    (found : items[position]? = some first) (laterFound : items[later]? = some second) :
    ListedBefore items first second := by
  have inFront : first ∈ items.take (position + 1) := by
    apply List.mem_of_getElem?
    rw [List.getElem?_take_of_lt (Nat.lt_succ_self position), found]
  have inBack : second ∈ items.drop (position + 1) := by
    apply List.mem_of_getElem? (i := later - (position + 1))
    rw [List.getElem?_drop, Nat.add_sub_cancel' lt, laterFound]
  have both := List.Sublist.append (List.singleton_sublist.mpr inFront)
    (List.singleton_sublist.mpr inBack)
  rwa [List.take_append_drop] at both

theorem asymm (nodup : items.Nodup) (before : ListedBefore items first second) :
    ¬ ListedBefore items second first := by
  intro after
  induction items with
  | nil => cases before
  | cons head rest ih =>
      simp only [List.nodup_cons] at nodup
      simp only [ListedBefore, List.cons_sublist_cons', List.singleton_sublist] at before after ih
      rcases before with later | ⟨rfl, secondMem⟩
      · rcases after with otherLater | ⟨rfl, firstMem⟩
        · exact ih nodup.2 later otherLater
        · exact nodup.1 (later.mem (by simp))
      · rcases after with otherLater | ⟨rfl, firstMem⟩
        · exact nodup.1 (otherLater.mem (by simp))
        · exact nodup.1 firstMem

/-- What the earlier item contributes is listed before what the later one does. -/
theorem flatMap (before : ListedBefore items first second) {each : α → List β} {one other : β}
    (oneMem : one ∈ each first) (otherMem : other ∈ each second) :
    ListedBefore (items.flatMap each) one other := by
  have contributed := List.Sublist.flatMap before each
  simp only [List.flatMap_cons, List.flatMap_nil, List.append_nil] at contributed
  apply List.Sublist.trans _ contributed
  exact List.Sublist.append (List.singleton_sublist.mpr oneMem) (List.singleton_sublist.mpr otherMem)

end ListedBefore

/-- Two paths of which none begins the other go together up to a node and leave it by different
steps. -/
theorem Path.exists_parting {path other : Path} (apart : ¬ path <+: other)
    (otherApart : ¬ other <+: path) :
    ∃ common step rest otherStep otherRest, path = common ++ step :: rest ∧
      other = common ++ otherStep :: otherRest ∧ step ≠ otherStep := by
  induction path generalizing other with
  | nil => exact absurd List.nil_prefix apart
  | cons step rest ih =>
      rcases other with _ | ⟨otherStep, otherRest⟩
      · exact absurd List.nil_prefix otherApart
      · by_cases same : step = otherStep
        · subst same
          simp only [List.prefix_cons_inj] at apart otherApart
          rcases ih apart otherApart with ⟨common, first, later, otherFirst, otherLater, rfl, rfl, differ⟩
          exact ⟨step :: common, first, later, otherFirst, otherLater, rfl, rfl, differ⟩
        · exact ⟨[], step, rest, otherStep, otherRest, rfl, rfl, same⟩

namespace Value

variable {value node : Value} {path : Path} {step otherStep : Segment}

/-- Of two steps from a value the first one comes earlier: of two keys of a map the one that was first
written earlier, of two indexes into a list the smaller one. -/
def Precedes : Value → Segment → Segment → Prop
  | map fields, .key first, .key second => ListedBefore (Fields.keys fields) first second
  | list _, .index first, .index second => first < second
  | _, _, _ => False

/-- The steps that can be taken from a value and what each leads to, in their order. -/
def children : Value → List (Segment × Value)
  | list items => items.zipIdx.map fun item => (.index item.2, item.1)
  | map fields => fields.map fun entry => (.key entry.1, entry.2)
  | _ => []

theorem concretePaths_eq_flatMap_children (value : Value) :
    value.concretePaths =
      value.children.flatMap fun child => child.2.places.map (child.1 :: ·) := by
  cases value with
  | list items => simp only [concretePaths_list, children, List.flatMap_map]
  | map fields => simp only [concretePaths_map, children, List.flatMap_map]
  | _ => rfl

theorem mem_children_of_step? {below : Value} (taken : value.step? step = some below) :
    (step, below) ∈ value.children := by
  cases value with
  | list items =>
      rcases step?_list_eq_some_iff.mp taken with ⟨position, rfl, found⟩
      apply List.mem_map.mpr
      exact ⟨(below, position), List.mem_zipIdx_iff_getElem?.mpr found, rfl⟩
  | map fields =>
      rcases step?_map_eq_some_iff.mp taken with ⟨key, rfl, found⟩
      apply List.mem_map.mpr
      exact ⟨(key, below), Fields.mem_of_get?_eq_some found, rfl⟩
  | _ => cases taken

/-- Of two different steps from a value one comes earlier. -/
theorem precedes_or_precedes {below otherBelow : Value} (taken : value.step? step = some below)
    (otherTaken : value.step? otherStep = some otherBelow) (different : step ≠ otherStep) :
    value.Precedes step otherStep ∨ value.Precedes otherStep step := by
  cases value with
  | list items =>
      rcases step?_list_eq_some_iff.mp taken with ⟨position, rfl, _⟩
      rcases step?_list_eq_some_iff.mp otherTaken with ⟨otherPosition, rfl, _⟩
      simp only [ne_eq, Segment.index.injEq] at different
      simp only [Precedes]
      omega
  | map fields =>
      rcases step?_map_eq_some_iff.mp taken with ⟨key, rfl, found⟩
      rcases step?_map_eq_some_iff.mp otherTaken with ⟨otherKey, rfl, otherFound⟩
      simp only [ne_eq, Segment.key.injEq] at different
      have keyMem : key ∈ Fields.keys fields := by
        simp [← Fields.get?_isSome_iff, found]
      have otherKeyMem : otherKey ∈ Fields.keys fields := by
        simp [← Fields.get?_isSome_iff, otherFound]
      exact ListedBefore.or_reverse keyMem otherKeyMem different
  | _ => cases taken

/-- What an earlier step leads to is the earlier child. -/
theorem Precedes.children {below otherBelow : Value} (distinct : value.KeysDistinct)
    (precedes : value.Precedes step otherStep) (taken : value.step? step = some below)
    (otherTaken : value.step? otherStep = some otherBelow) :
    ListedBefore value.children (step, below) (otherStep, otherBelow) := by
  cases value with
  | list items =>
      rcases step?_list_eq_some_iff.mp taken with ⟨position, rfl, found⟩
      rcases step?_list_eq_some_iff.mp otherTaken with ⟨otherPosition, rfl, otherFound⟩
      apply ListedBefore.of_getElem? precedes
      · simp [children, List.getElem?_zipIdx, found]
      · simp [children, List.getElem?_zipIdx, otherFound]
  | map fields =>
      rcases step?_map_eq_some_iff.mp taken with ⟨key, rfl, found⟩
      rcases step?_map_eq_some_iff.mp otherTaken with ⟨otherKey, rfl, otherFound⟩
      rw [keysDistinct_map_iff] at distinct
      rcases List.sublist_map_iff.mp precedes with ⟨entries, inFields, same⟩
      -- The entries of the two keys are those that a lookup finds, as no key comes twice.
      match entries, same with
      | [(first, held), (second, otherHeld)], same =>
        simp only [List.map_cons, List.map_nil, List.cons.injEq, and_true] at same
        rcases same with ⟨rfl, rfl⟩
        have member : (key, held) ∈ fields := inFields.mem (by simp)
        have otherMember : (otherKey, otherHeld) ∈ fields := inFields.mem (by simp)
        rw [Fields.get?_eq_some_of_mem distinct.1 member] at found
        rw [Fields.get?_eq_some_of_mem distinct.1 otherMember] at otherFound
        cases found
        cases otherFound
        exact inFields.map fun entry => (Segment.key entry.1, entry.2)
  | _ => cases taken

theorem get?_append (value : Value) (front back : Path) :
    value.get? (front ++ back) = (value.get? front).bind (get? · back) := by
  induction front generalizing value with
  | nil => simp
  | cons segment rest ih =>
      simp only [List.cons_append, get?_cons, Option.bind_assoc, ih]

theorem keysDistinct_of_get? (distinct : value.KeysDistinct) (held : value.get? path = some node) :
    node.KeysDistinct := by
  induction path generalizing value with
  | nil =>
      cases held
      exact distinct
  | cons segment rest ih =>
      rcases get?_cons_eq_some_iff.mp held with ⟨below, taken, later⟩
      exact ih (keysDistinct_of_step? distinct taken) later

/-- The places through a node are listed in the order in which the node has them. -/
theorem map_places_sublist (held : value.get? path = some node) :
    (node.places.map (path ++ ·)).Sublist value.places := by
  induction path generalizing value with
  | nil =>
      cases held
      simp
  | cons segment rest ih =>
      rcases get?_cons_eq_some_iff.mp held with ⟨below, taken, later⟩
      have inside := (ih later).map (segment :: ·)
      simp only [List.map_map] at inside
      apply inside.trans
      apply List.Sublist.cons
      rw [concretePaths_eq_flatMap_children]
      rcases List.append_of_mem (mem_children_of_step? taken) with ⟨front, back, split⟩
      simp only [split, List.flatMap_append, List.flatMap_cons]
      apply List.Sublist.trans _ (List.sublist_append_right _ _)
      exact List.sublist_append_left _ _

theorem listedBefore_append {first second : Path} (held : value.get? path = some node)
    (before : ListedBefore node.places first second) :
    ListedBefore value.places (path ++ first) (path ++ second) :=
  (before.map (path ++ ·)).trans (map_places_sublist held)

theorem listedBefore_places_iff {first second : Path} (inside : first ≠ []) :
    ListedBefore value.places first second ↔ ListedBefore value.concretePaths first second := by
  simp [ListedBefore, places, List.cons_sublist_cons', inside]

/-- The concrete paths are those that lead from the root to another node. -/
theorem mem_concretePaths_iff (distinct : value.KeysDistinct) :
    path ∈ value.concretePaths ↔ path ≠ [] ∧ ∃ node, value.get? path = some node := by
  have rootOnce := (List.nodup_cons.mp (nodup_places distinct)).1
  have isPlace : path = [] ∨ path ∈ value.concretePaths ↔ ∃ node, value.get? path = some node := by
    simpa [places] using mem_places_iff distinct
  constructor
  · intro member
    refine ⟨?_, isPlace.mp (Or.inr member)⟩
    rintro rfl
    exact rootOnce member
  · rintro ⟨inside, leads⟩
    exact (isPlace.mpr leads).resolve_left inside

/-- A path is listed after those that begin it. -/
theorem listedBefore_of_prefix (distinct : value.KeysDistinct) {beginning : Path}
    (member : path ∈ value.concretePaths) (inside : beginning ≠ []) (begins : beginning <+: path)
    (proper : beginning ≠ path) : ListedBefore value.concretePaths beginning path := by
  rcases begins with ⟨rest, rfl⟩
  rcases (mem_concretePaths_iff distinct).mp member with ⟨_, node, held⟩
  rw [get?_append] at held
  rcases Option.bind_eq_some_iff.mp held with ⟨between, reached, onward⟩
  have restMem : rest ∈ between.concretePaths := by
    apply (mem_concretePaths_iff (keysDistinct_of_get? distinct reached)).mpr
    refine ⟨?_, node, onward⟩
    rintro rfl
    simp at proper
  have rootFirst : ListedBefore between.places [] rest := by
    apply List.Sublist.cons_cons
    exact List.singleton_sublist.mpr restMem
  have listed := listedBefore_append reached rootFirst
  rw [List.append_nil] at listed
  exact (listedBefore_places_iff inside).mp listed

/-- Paths that leave a node by an earlier step are listed before those that leave it by a later
one. -/
theorem listedBefore_of_precedes (distinct : value.KeysDistinct) {common rest otherRest : Path}
    (member : common ++ step :: rest ∈ value.concretePaths)
    (otherMember : common ++ otherStep :: otherRest ∈ value.concretePaths)
    (held : value.get? common = some node) (precedes : node.Precedes step otherStep) :
    ListedBefore value.concretePaths (common ++ step :: rest) (common ++ otherStep :: otherRest) := by
  have nodeDistinct := keysDistinct_of_get? distinct held
  have below : ∀ {taken : Segment} {further : Path},
      common ++ taken :: further ∈ value.concretePaths →
      ∃ child, node.step? taken = some child ∧ further ∈ child.places := by
    intro taken further listed
    rcases (mem_concretePaths_iff distinct).mp listed with ⟨_, last, reached⟩
    rw [get?_append, held, Option.bind_some] at reached
    rcases get?_cons_eq_some_iff.mp reached with ⟨child, isStep, onward⟩
    have childDistinct := keysDistinct_of_step? nodeDistinct isStep
    exact ⟨child, isStep, (mem_places_iff childDistinct).mpr ⟨last, onward⟩⟩
  rcases below member with ⟨child, taken, inChild⟩
  rcases below otherMember with ⟨otherChild, otherTaken, inOtherChild⟩
  have atNode : ListedBefore node.concretePaths (step :: rest) (otherStep :: otherRest) := by
    rw [concretePaths_eq_flatMap_children]
    apply (precedes.children nodeDistinct taken otherTaken).flatMap
    · exact List.mem_map_of_mem inChild
    · exact List.mem_map_of_mem inOtherChild
  have inside : common ++ step :: rest ≠ [] := by
    simp
  apply (listedBefore_places_iff inside).mp
  apply listedBefore_append held
  exact List.Sublist.cons _ atNode

/-- The list holds the paths that lead from the root of the value to another node, each once and
depth first: a path comes after those that begin it, and of two that part at a node the one that
leaves it by the earlier step comes first. -/
structure Enumerated (value : Value) (paths : List Path) : Prop where
  mem_iff : ∀ path, path ∈ paths ↔ path ≠ [] ∧ ∃ node, value.get? path = some node
  nodup : paths.Nodup
  beginning_first : ∀ path ∈ paths, ∀ beginning, beginning ≠ [] → beginning <+: path →
    beginning ≠ path → ListedBefore paths beginning path
  earlier_step_first : ∀ path ∈ paths, ∀ other ∈ paths, ¬ path <+: other → ¬ other <+: path →
    ∃ common step rest otherStep otherRest node, path = common ++ step :: rest ∧
      other = common ++ otherStep :: otherRest ∧ step ≠ otherStep ∧
      value.get? common = some node ∧
      (node.Precedes step otherStep ∨ node.Precedes otherStep step) ∧
      (ListedBefore paths path other ↔ node.Precedes step otherStep)

/-- Enumerating the concrete paths and looking nodes up by them agree: the list is that of all paths
that lead from the root to another node, in depth-first order, and a tree has the same paths as
keys. -/
theorem enumerated_concretePaths {value : Value} (distinct : value.KeysDistinct) :
    value.Enumerated value.concretePaths ∧
      ∀ path, (Tree.ofValue value).isKey path ↔
        path ≠ [] ∧ ((Tree.ofValue value).get? path).isSome := by
  have nodup := (List.nodup_cons.mp (nodup_places distinct)).2
  constructor
  · refine ⟨fun path => mem_concretePaths_iff distinct, nodup, ?_, ?_⟩
    · intro path member beginning inside begins proper
      exact listedBefore_of_prefix distinct member inside begins proper
    · intro path member other otherMember apart otherApart
      rcases Path.exists_parting apart otherApart with
        ⟨common, step, rest, otherStep, otherRest, rfl, rfl, different⟩
      rcases (mem_concretePaths_iff distinct).mp member with ⟨_, last, reached⟩
      rcases (mem_concretePaths_iff distinct).mp otherMember with ⟨_, otherLast, otherReached⟩
      rw [get?_append] at reached otherReached
      rcases Option.bind_eq_some_iff.mp reached with ⟨node, held, onward⟩
      rw [held, Option.bind_some] at otherReached
      rcases get?_cons_eq_some_iff.mp onward with ⟨child, taken, _⟩
      rcases get?_cons_eq_some_iff.mp otherReached with ⟨otherChild, otherTaken, _⟩
      have either := precedes_or_precedes taken otherTaken different
      refine ⟨common, step, rest, otherStep, otherRest, node, rfl, rfl, different, held, either, ?_⟩
      constructor
      · intro listed
        apply either.resolve_right
        intro reversed
        have after := listedBefore_of_precedes distinct otherMember member held reversed
        exact listed.asymm nodup after
      · intro precedes
        exact listedBefore_of_precedes distinct member otherMember held precedes
  · intro path
    simp only [Tree.isKey, Tree.get?, Tree.ofValue, List.contains_iff_mem, Option.isSome_iff_exists]
    exact mem_concretePaths_iff distinct

/-- Lists in a list next to keys that read like indexes. -/
def numberedKeys : Value :=
  map [("1", list [list [none, map [("0", none)]], list []]), ("0", none), ("10", map [("1", none)])]

/-- An inner list is listed before what it holds, a key that reads like an index is a key, and a
position beyond the end of a list is no place. -/
theorem enumerated_numberedKeys :
    numberedKeys.KeysDistinct ∧
      ListedBefore numberedKeys.concretePaths [.key "1", .index 0]
        [.key "1", .index 0, .index 1, .key "0"] ∧
      (Tree.ofValue numberedKeys).isKey [.key "0"] ∧
      [.key "1", .index 2] ∉ numberedKeys.concretePaths := by
  have distinct : numberedKeys.KeysDistinct := by
    simp [numberedKeys, KeysDistinct, ItemsKeysDistinct, EntriesKeysDistinct, Fields.Distinct,
      Fields.keys]
  rcases enumerated_concretePaths distinct with ⟨listed, keys⟩
  refine ⟨distinct, ?_, (keys _).mpr ⟨by decide, rfl⟩, ?_⟩
  · apply listed.beginning_first
    · decide
    · decide
    · decide
    · decide
  · rw [listed.mem_iff]
    rintro ⟨_, node, held⟩
    cases held

end Value

end GraphTemplate
