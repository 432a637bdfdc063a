import GraphTemplate.Proofs.Schema.Chains

/-!
# Completed paths

A path is completed to a canonical path along the schema: its keys stay, and every list that it enters
gets a wildcard, whether the path names an element there or not.  What is completed stays as it is,
and it is the canonical path that results whenever some of its wildcards are left out and others are
indexes.  Two kinds of canonical paths are excepted: those that end at a key under which there is a
list, since the path then goes on into the elements, and those that end with more than one wildcard,
since no list inside the elements is entered unasked.
-/

namespace GraphTemplate

namespace Path

/-- A path that names the elements of a canonical path by positions, by wildcards, or not at all. -/
inductive Abridges : Path → Path → Prop where
  | nil : Abridges [] []
  | key (name : String) {path whole : Path} (further : Abridges path whole) :
      Abridges (.key name :: path) (.key name :: whole)
  | omitted {path whole : Path} (further : Abridges path whole) : Abridges path (.any :: whole)
  | kept {path whole : Path} (further : Abridges path whole) :
      Abridges (.any :: path) (.any :: whole)
  | index (position : Nat) {path whole : Path} (further : Abridges path whole) :
      Abridges (.index position :: path) (.any :: whole)

namespace Abridges

variable {path whole : Path}

theorem eq_nil (abridges : path.Abridges []) : path = [] := by
  cases abridges
  rfl

/-- Nothing is left of wildcards only, of which a path that ends in a single one has no more. -/
theorem eq_nil_of_single (abridges : Abridges [] whole)
    (single : ¬ [Segment.any, .any] <:+ .any :: whole) : whole = [] := by
  induction whole with
  | nil => rfl
  | cons segment rest ih =>
      cases abridges with
      | omitted further =>
          have nothing : rest = [] := by
            apply ih further
            intro double
            exact single (double.trans (List.suffix_cons Segment.any _))
          subst nothing
          exact absurd (List.suffix_refl _) single

/-- An element that is named too early stands for one that is named later just as well. -/
theorem skipElement (abridges : path.Abridges whole) :
    (Schema.skipElement path).Abridges whole := by
  induction abridges with
  | nil => exact .nil
  | key name further ih => exact .key name further
  | omitted further ih => exact .omitted ih
  | kept further ih => exact .omitted further
  | index position further ih => exact .omitted further

theorem skipElement_of_any (abridges : path.Abridges (.any :: whole)) :
    (Schema.skipElement path).Abridges whole := by
  cases abridges with
  | omitted further => exact further.skipElement
  | kept further => exact further
  | index position further => exact further

end Abridges

end Path

namespace Schema

/-- The path ends at a key under which the schema has a list. -/
def EndsAtList (schema : Schema) (path : Path) : Prop :=
  ∃ front name element, path = front ++ [.key name] ∧ schema.at? path = some (list element)

/-- What a path is completed to: keys are followed, and a list adds a wildcard and uses up an index or
wildcard that the path has there. -/
inductive Completes : Schema → Path → Path → Prop where
  | here {schema : Schema} (noList : schema.element? = none) : Completes schema [] []
  | key {schema below : Schema} {name : String} {path whole : Path}
      (found : schema.get? name = some below) (further : Completes below path whole) :
      Completes schema (.key name :: path) (.key name :: whole)
  | stop {element : Schema} {path : Path} (used : skipElement path = []) :
      Completes (list element) path [.any]
  | enter {element : Schema} {path whole : Path} (unused : skipElement path ≠ [])
      (further : Completes element (skipElement path) whole) :
      Completes (list element) path (.any :: whole)

/-! ### What completing a path comes to -/

theorem canonicalizeAt_list_of_used {element : Schema} {path : Path} (used : skipElement path = [])
    (done : Path) : (list element).canonicalizeAt done path = .ok [.any] := by
  rw [canonicalizeAt, used]

theorem canonicalizeAt_list_of_unused {element : Schema} {path : Path}
    (unused : skipElement path ≠ []) (done : Path) :
    (list element).canonicalizeAt done path =
      (element.canonicalizeAt (done.join .any) (skipElement path)).map (.any :: ·) := by
  rw [canonicalizeAt]
  split
  · rename_i used
    exact absurd used unused
  · rfl

theorem canonicalizeEntry_of_missing {fields : List (String × Schema)} {key : String}
    (missing : Fields.get? fields key = none) (done rest : Path) :
    canonicalizeEntry done key rest fields = .error (.missingKey done key) := by
  induction fields with
  | nil => rfl
  | cons entry others ih =>
      rcases entry with ⟨name, first⟩
      rw [Fields.get?_cons] at missing
      split at missing
      · cases missing
      · rename_i different
        rw [canonicalizeEntry, if_neg different, ih missing]

theorem Completes.canonicalizeAt {schema : Schema} {path whole : Path}
    (completes : schema.Completes path whole) (done : Path) :
    schema.canonicalizeAt done path = .ok whole := by
  induction completes generalizing done with
  | @here schema noList =>
      cases schema with
      | scalar => rfl
      | map fields => rfl
      | list element => cases noList
  | key found further ih =>
      rcases get?_eq_some_iff.mp found with ⟨fields, rfl, inFields⟩
      rw [canonicalizeAt_map_key inFields, ih]
      rfl
  | stop used => exact canonicalizeAt_list_of_used used done
  | enter unused further ih =>
      rw [canonicalizeAt_list_of_unused unused, ih]
      rfl

/-- The result of completing a path: what it is completed to, or a fault of the path. -/
def Outcome (schema : Schema) (path : Path) : Except Fault Path → Prop
  | .ok whole => schema.Completes path whole
  | .error fault => fault.category = .path

theorem Outcome.map {schema below : Schema} {path rest : Path} {segment : Segment}
    {result : Except Fault Path} (outcome : below.Outcome rest result)
    (goesOn : ∀ whole, below.Completes rest whole → schema.Completes path (segment :: whole)) :
    schema.Outcome path (result.map (segment :: ·)) := by
  cases result with
  | ok whole => exact goesOn whole outcome
  | error fault => exact outcome

theorem outcome_canonicalizeAt (schema : Schema) (done path : Path) :
    schema.Outcome path (schema.canonicalizeAt done path) := by
  induction schema using induction_shapes generalizing done path with
  | scalar =>
      rcases path with _ | ⟨name | position | _, rest⟩
      · exact .here rfl
      · exact rfl
      · exact rfl
      · exact rfl
  | list element ih =>
      by_cases used : skipElement path = []
      · rw [canonicalizeAt_list_of_used used]
        exact .stop used
      · rw [canonicalizeAt_list_of_unused used]
        apply Outcome.map (ih _ _)
        intro whole further
        exact .enter used further
  | map fields ih =>
      rcases path with _ | ⟨name | position | _, rest⟩
      · exact .here rfl
      · rcases entry : Fields.get? fields name with _ | below
        · rw [canonicalizeAt, canonicalizeEntry_of_missing entry]
          exact rfl
        · rw [canonicalizeAt_map_key entry]
          apply Outcome.map (ih _ (Fields.mem_of_get?_eq_some entry) _ _)
          intro whole further
          exact .key entry further
      · exact rfl
      · exact rfl

/-! ### Completed paths are canonical -/

theorem keys_skipElement (path : Path) : (skipElement path).keys = path.keys := by
  rcases path with _ | ⟨name | position | _, rest⟩ <;> rfl

namespace Completes

variable {schema : Schema} {path whole : Path}

theorem exists_at? (completes : schema.Completes path whole) :
    ∃ shape, schema.at? whole = some shape := by
  induction completes with
  | @here schema noList => exact ⟨schema, at?_nil schema⟩
  | @key schema below name path whole found further ih =>
      rcases ih with ⟨shape, held⟩
      rcases get?_eq_some_iff.mp found with ⟨fields, rfl, inFields⟩
      exact ⟨shape, at?_cons_eq_some_iff.mpr ⟨below, inFields, held⟩⟩
  | @stop element path used =>
      exact ⟨element, at?_cons_eq_some_iff.mpr ⟨element, rfl, at?_nil element⟩⟩
  | @enter element path whole unused further ih =>
      rcases ih with ⟨shape, held⟩
      exact ⟨shape, at?_cons_eq_some_iff.mpr ⟨element, rfl, held⟩⟩

theorem keys_eq (completes : schema.Completes path whole) : whole.keys = path.keys := by
  induction completes with
  | here noList => rfl
  | @key schema below name path whole found further ih => exact congrArg (name :: ·) ih
  | @stop element path used =>
      rw [← keys_skipElement path, used]
      rfl
  | @enter element path whole unused further ih =>
      rw [← keys_skipElement path]
      exact ih

theorem ne_nil (completes : schema.Completes path whole) (more : path ≠ []) : whole ≠ [] := by
  cases completes with
  | here noList => exact absurd rfl more
  | key found further => exact List.cons_ne_nil _ _
  | stop used => exact List.cons_ne_nil _ _
  | enter unused further => exact List.cons_ne_nil _ _

/-- What is completed is complete: its wildcards use up those that its lists add. -/
theorem self (completes : schema.Completes path whole) : schema.Completes whole whole := by
  induction completes with
  | here noList => exact .here noList
  | key found further ih => exact .key found ih
  | stop used => exact .stop rfl
  | enter unused further ih => exact .enter (further.ne_nil unused) ih

end Completes

/-! ### Canonical paths are completed from what abridges them -/

/-- Along a path at which the schema has a shape, what abridges it is completed to it.  The induction is
on the canonical path: a list takes its wildcard from there, and what it uses up of the other path
leaves one that abridges the rest. -/
theorem completes_of_abridges {schema shape : Schema} {path whole : Path}
    (held : schema.at? whole = some shape) (more : whole ≠ [])
    (goesOn : ¬ schema.EndsAtList whole) (single : ¬ [Segment.any, .any] <:+ whole)
    (abridges : path.Abridges whole) : schema.Completes path whole := by
  induction whole generalizing schema path with
  | nil => exact absurd rfl more
  | cons segment rest ih =>
      rcases at?_cons_eq_some_iff.mp held with ⟨below, step, later⟩
      have singleLater : ¬ [Segment.any, .any] <:+ rest :=
        fun double => single (double.trans (List.suffix_cons segment rest))
      have goesOnLater : ¬ below.EndsAtList rest := by
        rintro ⟨front, name, element, rfl, atEnd⟩
        exact goesOn ⟨segment :: front, name, element, rfl,
          at?_cons_eq_some_iff.mpr ⟨below, step, atEnd⟩⟩
      cases schema with
      | scalar => cases step
      | list element =>
          rcases step?_list_eq_some_iff.mp step with ⟨rfl, rfl⟩
          have remaining := abridges.skipElement_of_any
          by_cases used : skipElement path = []
          · -- Nothing is left to complete: the wildcard of this list has to be the last one.
            rw [used] at remaining
            cases remaining.eq_nil_of_single single
            exact .stop used
          · have further : rest ≠ [] := by
              rintro rfl
              exact used remaining.eq_nil
            exact .enter used (ih later further goesOnLater singleLater remaining)
      | map fields =>
          rcases step?_map_eq_some_iff.mp step with ⟨name, rfl, found⟩
          cases abridges with
          | key _ remaining =>
              apply Completes.key (get?_eq_some_iff.mpr ⟨fields, rfl, found⟩)
              by_cases further : rest = []
              · subst further
                cases remaining.eq_nil
                cases (at?_nil below).symm.trans later
                apply Completes.here
                cases shape with
                | list element => exact absurd ⟨[], name, element, rfl, held⟩ goesOn
                | _ => rfl
              · exact ih later further goesOnLater singleLater remaining

/-- What a path is completed to is the root or a canonical path with the same keys, and is complete.  A
canonical path that ends neither at a key of a list nor with more than one wildcard is what results
from every path that omits some of its wildcards and has indexes for others.  All that can go wrong is
that the path does not fit the schema. -/
theorem canonicalize_projects {schema : Schema} (distinct : schema.KeysDistinct) (path : Path) :
    (∀ whole, schema.canonicalize path = .ok whole →
      (whole = [] ∨ whole ∈ schema.canonicalPaths) ∧ whole.keys = path.keys ∧
        schema.canonicalize whole = .ok whole) ∧
    (∀ whole ∈ schema.canonicalPaths, ¬ schema.EndsAtList whole →
      ¬ [Segment.any, .any] <:+ whole → path.Abridges whole →
        schema.canonicalize path = .ok whole) ∧
    ∀ fault, schema.canonicalize path = .error fault → fault.category = .path := by
  have outcome := outcome_canonicalizeAt schema [] path
  refine ⟨?_, ?_, ?_⟩
  · intro whole completed
    rw [← canonicalize, completed] at outcome
    have completes : schema.Completes path whole := outcome
    exact ⟨List.mem_cons.mp ((mem_canonicalPaths_iff distinct).mpr completes.exists_at?),
      completes.keys_eq, completes.self.canonicalizeAt []⟩
  · intro whole member goesOn single abridges
    rcases (mem_canonicalPaths_iff distinct).mp (List.mem_cons_of_mem _ member) with ⟨shape, held⟩
    have more : whole ≠ [] := by
      rintro rfl
      exact (List.nodup_cons.mp (nodup_canonicalPaths distinct)).1 member
    exact (completes_of_abridges held more goesOn single abridges).canonicalizeAt []
  · intro fault failed
    rw [← canonicalize, failed] at outcome
    exact outcome

/-- Lists of maps with a list of lists of maps. -/
def pagesOfRows : Schema :=
  list (map [("rows", list (list (map [("cell", scalar)]))), ("title", scalar)])

/-- A path into the lists of lists that names one element of three, and what it is completed to. -/
theorem canonicalize_pagesOfRows :
    pagesOfRows.KeysDistinct ∧
      pagesOfRows.canonicalize [.key "rows", .index 7, .key "cell"] =
        .ok [.any, .key "rows", .any, .any, .key "cell"] ∧
      pagesOfRows.canonicalize [.any, .key "rows", .any, .any, .key "cell"] =
        .ok [.any, .key "rows", .any, .any, .key "cell"] := by
  have distinct : pagesOfRows.KeysDistinct := by
    simp [pagesOfRows, KeysDistinct, EntriesKeysDistinct, Fields.Distinct, Fields.keys]
  rcases canonicalize_projects distinct [.key "rows", .index 7, .key "cell"] with
    ⟨projects, completed, _⟩
  have result := completed [.any, .key "rows", .any, .any, .key "cell"] (by decide)
    (by rintro ⟨_, _, _, _, held⟩; cases held) (by decide)
    (.omitted (.key _ (.index 7 (.omitted (.key _ .nil)))))
  exact ⟨distinct, result, (projects _ result).2.2⟩

end Schema

end GraphTemplate
