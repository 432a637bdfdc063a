import GraphTemplate.Proofs.Schema.Merge
import Mathlib.Data.List.Perm.Subperm

/-!
# Unions of same schemas

Two maps are the same if they have the same keys and, under each key, the same thing; their lengths
and the order of their entries need not be looked at.  The union of schemas depends on its parts
only up to such reordering.
-/

namespace GraphTemplate

section

variable {α β : Type} {rel : α → β → Prop}

theorem Option.isSome_eq_of_rel {value : Option α} {other : Option β}
    (related : Option.Rel rel value other) : value.isSome = other.isSome := by
  cases related <;> rfl

/-- What is merged of related parts is related. -/
theorem Option.rel_merge {join : α → α → α} {otherJoin : β → β → β} {first second : Option α}
    {firstOther secondOther : Option β} (firstRel : Option.Rel rel first firstOther)
    (secondRel : Option.Rel rel second secondOther)
    (joined : ∀ one ∈ first, ∀ other ∈ firstOther, ∀ two ∈ second, ∀ twoOther ∈ secondOther,
      rel one other → rel two twoOther → rel (join one two) (otherJoin other twoOther)) :
    Option.Rel rel (Option.merge join first second)
      (Option.merge otherJoin firstOther secondOther) := by
  cases firstRel with
  | none => simpa using secondRel
  | some firstSame =>
      cases secondRel with
      | none => exact .some firstSame
      | some secondSame => exact .some (joined _ rfl _ rfl _ rfl _ rfl firstSame secondSame)

theorem Option.rel_swap {swapped : β → α → Prop} {value : Option α} {other : Option β}
    (related : Option.Rel rel value other)
    (swap : ∀ one ∈ value, ∀ two ∈ other, rel one two → swapped two one) :
    Option.Rel swapped other value := by
  cases related with
  | none => exact .none
  | some same => exact .some (swap _ rfl _ rfl same)

theorem Option.rel_map {α' β' : Type} {mapped : α' → β' → Prop} {f : α → α'} {g : β → β'}
    {value : Option α} {other : Option β} (related : Option.Rel rel value other)
    (imp : ∀ one ∈ value, ∀ two ∈ other, rel one two → mapped (f one) (g two)) :
    Option.Rel mapped (value.map f) (other.map g) := by
  cases related with
  | none => exact .none
  | some same => exact .some (imp _ rfl _ rfl same)

theorem Option.rel_comp {γ : Type} {relOther : β → γ → Prop} {whole : α → γ → Prop}
    {value : Option α} {other : Option β} {last : Option γ} (related : Option.Rel rel value other)
    (relatedOther : Option.Rel relOther other last)
    (comp : ∀ one ∈ value, ∀ two ∈ other, ∀ three ∈ last,
      rel one two → relOther two three → whole one three) : Option.Rel whole value last := by
  cases related with
  | none =>
      cases relatedOther
      exact .none
  | some same =>
      cases relatedOther with
      | some sameOther => exact .some (comp _ rfl _ rfl _ rfl same sameOther)

end

namespace Fields

variable {α β : Type}

theorem length_eq_of_keys_iff {fields : Fields α} {others : Fields β} (distinct : fields.Distinct)
    (otherDistinct : others.Distinct) (same : ∀ key, key ∈ fields.keys ↔ key ∈ others.keys) :
    fields.length = others.length := by
  have perm : fields.keys.Perm others.keys :=
    (List.perm_ext_iff_of_nodup distinct otherDistinct).mpr same
  simpa [keys] using perm.length_eq

/-- Equally many entries, each of which has a counterpart, are counterparts key by key. -/
theorem forall_rel_get?_iff (rel : α → β → Prop) {fields : Fields α} {others : Fields β}
    (distinct : fields.Distinct) (otherDistinct : others.Distinct) :
    (fields.length = others.length ∧
      ∀ entry ∈ fields, ∃ other, others.get? entry.1 = some other ∧ rel entry.2 other) ↔
    ∀ key, Option.Rel rel (fields.get? key) (others.get? key) := by
  constructor
  · rintro ⟨lengths, each⟩
    -- The keys of the first are among those of the second, and there are no more of these.
    have inside : fields.keys ⊆ others.keys := by
      intro key member
      rcases List.mem_map.mp member with ⟨entry, entryMem, rfl⟩
      rcases each entry entryMem with ⟨other, found, _⟩
      rw [← get?_isSome_iff, found]
      rfl
    have perm : fields.keys.Perm others.keys := by
      apply (List.subperm_of_subset distinct inside).perm_of_length_le
      simp [keys, lengths]
    intro key
    cases found : fields.get? key with
    | none =>
        rw [get?_eq_none_iff, perm.mem_iff] at found
        rw [get?_eq_none_iff.mpr found]
        exact .none
    | some value =>
        rcases each _ (mem_of_get?_eq_some found) with ⟨other, otherFound, related⟩
        rw [otherFound]
        exact .some related
  · intro related
    constructor
    · apply length_eq_of_keys_iff distinct otherDistinct
      intro key
      rw [← get?_isSome_iff, ← get?_isSome_iff]
      rw [Option.isSome_eq_of_rel (related key)]
    · rintro ⟨key, value⟩ member
      have here := related key
      rw [get?_eq_some_of_mem distinct member] at here
      generalize others.get? key = other at here
      cases here with
      | some same => exact ⟨_, rfl, same⟩

end Fields

namespace Schema

theorem same_scalar_iff {schema : Schema} : scalar.same schema ↔ schema = scalar := by
  cases schema <;> simp [same]

theorem same_list_left_iff {element schema : Schema} :
    (list element).same schema ↔ ∃ other, schema = list other ∧ element.same other := by
  cases schema <;> simp [same]

theorem same_map_left_iff {fields : List (String × Schema)} {schema : Schema}
    (distinct : (map fields).KeysDistinct) (otherDistinct : schema.KeysDistinct) :
    (map fields).same schema ↔ ∃ others, schema = map others ∧
      ∀ key, Option.Rel (fun shape other => shape.same other)
        (Fields.get? fields key) (Fields.get? others key) := by
  cases schema with
  | scalar => simp [same]
  | list element => simp [same]
  | map others =>
      rw [keysDistinct_map_iff] at distinct otherDistinct
      have keys := Fields.forall_rel_get?_iff (fun (shape other : Schema) => shape.same other)
        distinct.1 otherDistinct.1
      rw [same_map_iff, keys]
      simp

theorem same_map_get?_iff {fields others : List (String × Schema)}
    (distinct : (map fields).KeysDistinct) (otherDistinct : (map others).KeysDistinct) :
    (map fields).same (map others) ↔ ∀ key, Option.Rel (fun shape other => shape.same other)
      (Fields.get? fields key) (Fields.get? others key) := by
  rw [same_map_left_iff distinct otherDistinct]
  simp

/-- Schemas that are the same have unions that are the same. -/
theorem same_union {first firstOther second secondOther : Schema}
    (firstDistinct : first.KeysDistinct) (firstOtherDistinct : firstOther.KeysDistinct)
    (secondDistinct : second.KeysDistinct) (secondOtherDistinct : secondOther.KeysDistinct)
    (firstSame : first.same firstOther) (secondSame : second.same secondOther) :
    (first.union second).same (firstOther.union secondOther) := by
  induction second using induction_shapes generalizing first firstOther secondOther with
  | scalar =>
      rcases same_scalar_iff.mp secondSame with rfl
      rw [union_scalar, union_scalar]
      exact firstSame
  | list below ih =>
      rcases same_list_left_iff.mp secondSame with ⟨belowOther, rfl, belowSame⟩
      cases first with
      | scalar =>
          rcases same_scalar_iff.mp firstSame with rfl
          rw [scalar_union, scalar_union]
          exact secondSame
      | map fields =>
          rcases (same_map_left_iff firstDistinct firstOtherDistinct).mp firstSame with
            ⟨others, rfl, _⟩
          simpa only [union] using firstSame
      | list element =>
          rcases same_list_left_iff.mp firstSame with ⟨other, rfl, elementSame⟩
          rw [list_union_list, list_union_list, same_list_iff]
          exact ih firstDistinct firstOtherDistinct secondDistinct secondOtherDistinct elementSame
            belowSame
  | map entries ih =>
      rcases (same_map_left_iff secondDistinct secondOtherDistinct).mp secondSame with
        ⟨entriesOther, rfl, entriesSame⟩
      cases first with
      | scalar =>
          rcases same_scalar_iff.mp firstSame with rfl
          rw [scalar_union, scalar_union]
          exact secondSame
      | list element =>
          rcases same_list_left_iff.mp firstSame with ⟨other, rfl, _⟩
          simpa only [union] using firstSame
      | map fields =>
          rcases (same_map_left_iff firstDistinct firstOtherDistinct).mp firstSame with
            ⟨others, rfl, fieldsSame⟩
          have united := keysDistinct_union firstDistinct secondDistinct
          have unitedOther := keysDistinct_union firstOtherDistinct secondOtherDistinct
          rw [map_union_map] at united unitedOther
          rw [map_union_map, map_union_map, same_map_get?_iff united unitedOther]
          rw [keysDistinct_map_iff] at firstDistinct firstOtherDistinct
          rw [keysDistinct_map_iff] at secondDistinct secondOtherDistinct
          intro key
          rw [get?_unionEntries fields secondDistinct.1,
            get?_unionEntries others secondOtherDistinct.1]
          apply Option.rel_merge (fieldsSame key) (entriesSame key)
          intro shape found other otherFound below belowFound belowOther belowOtherFound
          have shapeMem := Fields.mem_of_get?_eq_some found
          have otherMem := Fields.mem_of_get?_eq_some otherFound
          have belowMem := Fields.mem_of_get?_eq_some belowFound
          have belowOtherMem := Fields.mem_of_get?_eq_some belowOtherFound
          exact ih _ belowMem (firstDistinct.2 _ shapeMem) (firstOtherDistinct.2 _ otherMem)
            (secondDistinct.2 _ belowMem) (secondOtherDistinct.2 _ belowOtherMem)

theorem same_foldl_union {schemas others : List Schema} {start startOther : Schema}
    (startDistinct : start.KeysDistinct) (startOtherDistinct : startOther.KeysDistinct)
    (distinct : ∀ schema ∈ schemas, schema.KeysDistinct)
    (otherDistinct : ∀ schema ∈ others, schema.KeysDistinct) (startSame : start.same startOther)
    (same : List.Forall₂ (fun schema other => schema.same other) schemas others) :
    (schemas.foldl union start).same (others.foldl union startOther) := by
  induction same generalizing start startOther with
  | nil => exact startSame
  | cons first _ ih =>
      rw [List.forall_mem_cons] at distinct otherDistinct
      exact ih (keysDistinct_union startDistinct distinct.1)
        (keysDistinct_union startOtherDistinct otherDistinct.1) distinct.2 otherDistinct.2
        (same_union startDistinct startOtherDistinct distinct.1 otherDistinct.1 startSame first)

end Schema

end GraphTemplate
