import GraphTemplate.Proofs.Schema.Union

/-!
# Chains of lists in schemas

A schema opens a chain of names if it has a list at each of them, one below the other.  The union of
schemas that have nothing else at these names opens a chain if one of them does.  A path of the names
is then completed by a wildcard after each of them.
-/

namespace GraphTemplate

namespace Schema

/-- At each name of a chain the schema has a list, as far as it has anything. -/
def Fits : List String → Schema → Prop
  | [], _ => True
  | name :: rest, schema =>
      schema = scalar ∨ ∃ element, schema.get? name = some (list element) ∧ element.Fits rest

/-- At each name of a chain the schema has a list. -/
def Opens : List String → Schema → Prop
  | [], _ => True
  | name :: rest, schema =>
      ∃ element, schema.get? name = some (list element) ∧ element.Opens rest

variable {chain : List String} {first second : Schema}

theorem fits_scalar (chain : List String) : scalar.Fits chain := by
  cases chain with
  | nil => trivial
  | cons name rest => exact Or.inl rfl

theorem get?_eq_some_iff {schema below : Schema} {name : String} :
    schema.get? name = some below ↔
      ∃ fields, schema = map fields ∧ Fields.get? fields name = some below := by
  cases schema <;> simp [get?]

theorem get?_union_of_lists {name : String} {element other : Schema}
    (distinct : second.KeysDistinct) (found : first.get? name = some (list element))
    (otherFound : second.get? name = some (list other)) :
    (first.union second).get? name = some (list (element.union other)) := by
  rcases get?_eq_some_iff.mp found with ⟨fields, rfl, inFields⟩
  rcases get?_eq_some_iff.mp otherFound with ⟨others, rfl, inOthers⟩
  rw [map_union_map, get?, get?_unionEntries _ (keysDistinct_map_iff.mp distinct).1, inFields,
    inOthers, Option.merge, list_union_list]

theorem keysDistinct_of_get?_list {schema element : Schema} {name : String}
    (distinct : schema.KeysDistinct) (found : schema.get? name = some (list element)) :
    element.KeysDistinct := by
  rcases get?_eq_some_iff.mp found with ⟨fields, rfl, found⟩
  exact (keysDistinct_map_iff.mp distinct).2 _ (Fields.mem_of_get?_eq_some found)

theorem Fits.union (distinct : second.KeysDistinct) (fits : first.Fits chain)
    (otherFits : second.Fits chain) : (first.union second).Fits chain := by
  induction chain generalizing first second with
  | nil => trivial
  | cons name rest ih =>
      rcases fits with rfl | ⟨element, found, further⟩
      · rw [scalar_union]
        exact otherFits
      · rcases otherFits with rfl | ⟨other, otherFound, otherFurther⟩
        · rw [union_scalar]
          exact Or.inr ⟨element, found, further⟩
        · exact Or.inr ⟨_, get?_union_of_lists distinct found otherFound,
            ih (keysDistinct_of_get?_list distinct otherFound) further otherFurther⟩

theorem Opens.union (distinct : second.KeysDistinct) (fits : first.Fits chain)
    (otherFits : second.Fits chain) (opens : first.Opens chain ∨ second.Opens chain) :
    (first.union second).Opens chain := by
  induction chain generalizing first second with
  | nil => trivial
  | cons name rest ih =>
      rcases fits with rfl | ⟨element, found, further⟩
      · rw [scalar_union]
        rcases opens with ⟨_, impossible, _⟩ | otherOpens
        · cases impossible
        · exact otherOpens
      · rcases otherFits with rfl | ⟨other, otherFound, otherFurther⟩
        · rw [union_scalar]
          rcases opens with opens | ⟨_, impossible, _⟩
          · exact opens
          · cases impossible
        · refine ⟨_, get?_union_of_lists distinct found otherFound,
            ih (keysDistinct_of_get?_list distinct otherFound) further otherFurther ?_⟩
          rcases opens with ⟨_, same, opens⟩ | ⟨_, same, opens⟩
          · cases found.symm.trans same
            exact Or.inl opens
          · cases otherFound.symm.trans same
            exact Or.inr opens

/-- The union of many schemas that fit a chain fits it, and it opens the chain if one of them does. -/
theorem fits_foldl_union {schemas : List Schema} {start : Schema}
    (distinct : ∀ schema ∈ schemas, schema.KeysDistinct)
    (fits : ∀ schema ∈ start :: schemas, schema.Fits chain) :
    (schemas.foldl union start).Fits chain ∧
      ((∃ schema ∈ start :: schemas, schema.Opens chain) →
        (schemas.foldl union start).Opens chain) := by
  induction schemas generalizing start with
  | nil => simpa using fits
  | cons schema rest ih =>
      simp only [List.forall_mem_cons] at distinct fits
      rcases fits with ⟨startFits, schemaFits, restFits⟩
      have joined : ∀ other ∈ start.union schema :: rest, other.Fits chain :=
        List.forall_mem_cons.mpr ⟨startFits.union distinct.1 schemaFits, restFits⟩
      rcases ih distinct.2 joined with ⟨resultFits, resultOpens⟩
      refine ⟨resultFits, ?_⟩
      rintro ⟨other, member, opens⟩
      apply resultOpens
      have inStart : start.Opens chain ∨ schema.Opens chain →
          ∃ other ∈ start.union schema :: rest, other.Opens chain :=
        fun opens => ⟨_, List.mem_cons_self, .union distinct.1 startFits schemaFits opens⟩
      rcases List.mem_cons.mp member with rfl | inSchemas
      · exact inStart (Or.inl opens)
      · rcases List.mem_cons.mp inSchemas with rfl | inRest
        · exact inStart (Or.inr opens)
        · exact ⟨other, List.mem_cons_of_mem _ inRest, opens⟩

end Schema

namespace Path

/-- The canonical path of a chain of relations. -/
def throughElements (chain : List String) : Path :=
  chain.flatMap fun name => [.key name, .any]

theorem throughElements_cons (name : String) (rest : List String) :
    throughElements (name :: rest) = .key name :: .any :: throughElements rest :=
  rfl

end Path

namespace Schema

theorem canonicalizeEntry_of_get? {fields : List (String × Schema)} {key : String} {shape : Schema}
    (found : Fields.get? fields key = some shape) (done rest : Path) :
    canonicalizeEntry done key rest fields = shape.canonicalizeAt (done.join (.key key)) rest := by
  induction fields with
  | nil => cases found
  | cons entry others ih =>
      rcases entry with ⟨name, first⟩
      rw [Fields.get?_cons] at found
      rw [canonicalizeEntry]
      split
      · rename_i same
        rw [if_pos same] at found
        cases found
        rfl
      · rename_i different
        rw [if_neg different] at found
        exact ih found

theorem canonicalizeAt_map_key {fields : List (String × Schema)} {key : String} {shape : Schema}
    (found : Fields.get? fields key = some shape) (done rest : Path) :
    (map fields).canonicalizeAt done (.key key :: rest) =
      (shape.canonicalizeAt (done.join (.key key)) rest).map (.key key :: ·) := by
  rw [canonicalizeAt, canonicalizeEntry_of_get? found]
  rfl

theorem canonicalizeAt_list_key (element : Schema) (done : Path) (key : String) (rest : Path) :
    (list element).canonicalizeAt done (.key key :: rest) =
      (element.canonicalizeAt (done.join .any) (.key key :: rest)).map (.any :: ·) := by
  rw [canonicalizeAt]
  rfl

/-- A chain that is open in a schema is completed by a wildcard after each name. -/
theorem canonicalizeAt_ofKeys {schema : Schema} {name : String} {rest : List String}
    (opens : schema.Opens (name :: rest)) (done : Path) :
    schema.canonicalizeAt done (Path.ofKeys (name :: rest)) =
      .ok (Path.throughElements (name :: rest)) := by
  induction rest generalizing schema name done with
  | nil =>
      rcases opens with ⟨element, found, _⟩
      rcases get?_eq_some_iff.mp found with ⟨fields, rfl, inFields⟩
      rw [Path.ofKeys, List.map_cons, canonicalizeAt_map_key inFields, List.map_nil, canonicalizeAt]
      rfl
  | cons next rest ih =>
      rcases opens with ⟨element, found, further⟩
      rcases get?_eq_some_iff.mp found with ⟨fields, rfl, inFields⟩
      have below := ih further ((done.join (.key name)).join .any)
      rw [Path.ofKeys, List.map_cons] at below
      rw [Path.ofKeys, List.map_cons, canonicalizeAt_map_key inFields, List.map_cons,
        canonicalizeAt_list_key, below]
      rfl

theorem canonicalize_ofKeys {schema : Schema} {chain : List String} (opens : schema.Opens chain)
    (more : chain ≠ []) :
    schema.canonicalize (Path.ofKeys chain) = .ok (Path.throughElements chain) := by
  rcases List.exists_cons_of_ne_nil more with ⟨name, rest, rfl⟩
  exact canonicalizeAt_ofKeys opens []

end Schema

end GraphTemplate
