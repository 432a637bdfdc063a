import GraphTemplate.Proofs.Tree.Nodes
import Mathlib.Data.List.Forall2
import Mathlib.Data.List.Induction

/-!
# Rows of concrete paths

A row tells what the keys along a path stand for.  Its keys are those of the path, each once and in
the order in which they come first; a key that comes again stands for the node at its last place, or
for the element there if an index follows.  Every concrete path that a pattern covers has its row, in
the order of the paths.
-/

namespace GraphTemplate

namespace Fields

variable {α : Type}

theorem ofList_append_singleton (entries : List (String × α)) (entry : String × α) :
    ofList (entries ++ [entry]) = (ofList entries).insert entry.1 entry.2 :=
  List.foldl_append

/-- Keys stand where they were first written. -/
theorem keys_ofList (entries : List (String × α)) :
    (ofList entries).keys = (entries.map Prod.fst).eraseDups := by
  induction entries using List.reverseRecOn with
  | nil => rfl
  | append_singleton entries entry ih =>
      rw [ofList_append_singleton, keys_insert, ih, List.map_append, List.eraseDups_append]
      simp only [List.mem_eraseDups]
      by_cases known : entry.1 ∈ entries.map Prod.fst
      · simp [known, List.removeAll]
      · simp [known, List.removeAll, List.eraseDups_cons]

/-- A key has the value that was written last. -/
theorem get?_ofList_of_last (front : List (String × α)) (key : String) (value : α)
    {back : List (String × α)} (last : key ∉ back.map Prod.fst) :
    (ofList (front ++ (key, value) :: back)).get? key = some value := by
  induction back using List.reverseRecOn with
  | nil => rw [ofList_append_singleton, get?_insert_self]
  | append_singleton back entry ih =>
      simp only [List.map_append, List.mem_append, not_or, List.map_singleton,
        List.mem_singleton] at last
      rw [← List.cons_append, ← List.append_assoc, ofList_append_singleton,
        get?_insert_of_ne _ _ (Ne.symm last.2)]
      exact ih last.1

end Fields

/-- The index at the beginning of a path, if there is one. -/
def Path.leadingIndex : Path → Path
  | .index position :: _ => [.index position]
  | _ => []

namespace Value

/-- The row has the keys of the path in the order of their first places.  Each of them has the node
to which the path leads at its last place, taken one step further if an index follows there. -/
structure IsRow (value : Value) (path : Path) (row : Fields Value) : Prop where
  keys_eq : row.keys = path.keys.eraseDups
  standsFor : ∀ (before : Path) (key : String) (after : Path),
    path = before ++ .key key :: after → .key key ∉ after →
      ∃ node, row.get? key = some node ∧
        value.get? (before ++ .key key :: after.leadingIndex) = some node

variable {value : Value}

/-- The first segment of a path is a key, which stands for a node, or it adds nothing. -/
theorem exists_of_along?_cons {segment : Segment} {rest : Path} {entries : List (String × Value)}
    (along : value.along? (segment :: rest) = some entries) :
    ∃ below more, value.step? segment = some below ∧ below.along? rest = some more ∧
      ((segment.key? = Option.none ∧ entries = more) ∨
        ∃ key node, segment = .key key ∧ entries = (key, node) :: more ∧
          value.get? (.key key :: rest.leadingIndex) = some node) := by
  simp only [along?, Option.bind_eq_bind, Option.bind_eq_some_iff] at along
  rcases along with ⟨below, step, more, further, along⟩
  refine ⟨below, more, step, further, ?_⟩
  split at along
  · rename_i key position later
    rcases Option.bind_eq_some_iff.mp along with ⟨node, next, same⟩
    cases same
    refine Or.inr ⟨key, node, rfl, rfl, ?_⟩
    simp [Path.leadingIndex, get?_cons, step, next]
  · rename_i key noIndex
    cases along
    refine Or.inr ⟨key, below, rfl, rfl, ?_⟩
    have nothing : rest.leadingIndex = [] := by
      unfold Path.leadingIndex
      split
      · rename_i position later
        exact absurd rfl (noIndex position later)
      · rfl
    simp [nothing, get?_cons, step]
  · rename_i noKey _
    cases along
    cases segment with
    | key name => exact absurd rfl (noKey name)
    | index position => exact Or.inl ⟨rfl, rfl⟩
    | any => exact Or.inl ⟨rfl, rfl⟩

theorem map_fst_of_along? {path : Path} {entries : List (String × Value)}
    (along : value.along? path = some entries) : entries.map Prod.fst = path.keys := by
  induction path generalizing value entries with
  | nil =>
      cases along
      rfl
  | cons segment rest ih =>
      rcases exists_of_along?_cons along with ⟨below, more, _, further, ⟨noKey, rfl⟩ | found⟩
      · rw [ih further, Path.keys, Path.keys, List.filterMap_cons_none noKey]
      · rcases found with ⟨key, node, rfl, rfl, _⟩
        rw [List.map_cons, ih further]
        rfl

/-- At the place of each key stands the node to which the path leads there. -/
theorem exists_split_of_along? {before : Path} {key : String} {after : Path}
    {entries : List (String × Value)}
    (along : value.along? (before ++ .key key :: after) = some entries) :
    ∃ front node back, entries = front ++ (key, node) :: back ∧ back.map Prod.fst = after.keys ∧
      value.get? (before ++ .key key :: after.leadingIndex) = some node := by
  induction before generalizing value entries with
  | nil =>
      rcases exists_of_along?_cons along with ⟨below, more, _, further, ⟨noKey, _⟩ | found⟩
      · cases noKey
      · rcases found with ⟨_, node, same, rfl, held⟩
        cases same
        exact ⟨[], node, more, rfl, map_fst_of_along? further, held⟩
  | cons segment rest ih =>
      rcases exists_of_along?_cons along with ⟨below, more, step, further, here⟩
      rcases ih further with ⟨front, node, back, rfl, keys, held⟩
      have through : value.get? (segment :: rest ++ .key key :: after.leadingIndex) = some node :=
        get?_cons_eq_some_iff.mpr ⟨below, step, held⟩
      rcases here with ⟨_, rfl⟩ | ⟨name, first, rfl, rfl, _⟩
      · exact ⟨front, node, back, rfl, keys, through⟩
      · exact ⟨(name, first) :: front, node, back, rfl, keys, through⟩

theorem isRow_of_row? {path : Path} {row : Fields Value} (made : value.row? path = some row) :
    value.IsRow path row := by
  rcases Option.map_eq_some_iff.mp made with ⟨entries, along, rfl⟩
  constructor
  · rw [Fields.keys_ofList, map_fst_of_along? along]
  · intro before key after split last
    subst split
    rcases exists_split_of_along? along with ⟨front, node, back, rfl, keys, held⟩
    have lastEntry : key ∉ back.map Prod.fst := by
      rw [keys]
      intro again
      rcases List.mem_filterMap.mp again with ⟨segment, member, isKey⟩
      cases segment <;> cases isKey
      exact last member
    exact ⟨node, Fields.get?_ofList_of_last front key node lastEntry, held⟩

/-- The rows of a pattern are those of the concrete paths that it covers: one for each, none lost, in
their order. -/
theorem isRow_branches (distinct : value.KeysDistinct) (pattern : Path) :
    List.Forall₂ value.IsRow (value.concretePaths.filter pattern.covers)
      (value.branches pattern) := by
  have rows := map_some_branches distinct pattern
  generalize value.concretePaths.filter pattern.covers = paths at rows ⊢
  generalize value.branches pattern = found at rows ⊢
  induction found generalizing paths with
  | nil =>
      cases List.map_eq_nil_iff.mp rows.symm
      exact .nil
  | cons row more ih =>
      rcases paths with _ | ⟨path, rest⟩
      · cases rows
      · rw [List.map_cons, List.map_cons, List.cons.injEq] at rows
        exact .cons (isRow_of_row? rows.1.symm) (ih rest rows.2)

/-- Pairs of elements under a key that comes again below it. -/
def nestedPairs : Value :=
  map [("as", list [list [map [("as", list [bool true, bool false])], none], list []])]

/-- Of the outer elements nothing is left in the rows of the inner ones, which take over their key. -/
theorem isRow_nestedPairs :
    nestedPairs.KeysDistinct ∧
      List.Forall₂ nestedPairs.IsRow
        [[.key "as", .index 0, .index 0, .key "as", .index 0],
          [.key "as", .index 0, .index 0, .key "as", .index 1]]
        [[("as", bool true)], [("as", bool false)]] := by
  have distinct : nestedPairs.KeysDistinct := by
    simp [nestedPairs, KeysDistinct, ItemsKeysDistinct, EntriesKeysDistinct, Fields.Distinct,
      Fields.keys]
  exact ⟨distinct, isRow_branches distinct [.key "as", .any, .any, .key "as", .any]⟩

end Value

end GraphTemplate
