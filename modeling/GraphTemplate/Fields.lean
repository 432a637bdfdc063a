/-!
# Fields

Insertion-ordered maps from names.  A key keeps the place where it was first written; writing it
again replaces its value there.  Order is part of the data: every enumeration in this library
follows it.
-/

namespace GraphTemplate

universe u

/-- Named entries in the order in which their names were first written. -/
abbrev Fields (α : Type u) := List (String × α)

namespace Fields

variable {α : Type u}

def get? : Fields α → String → Option α
  | [], _ => none
  | (name, value) :: rest, key => if name = key then some value else get? rest key

/-- Writes a value under a key: in place if the key is there, at the end otherwise. -/
def insert : Fields α → String → α → Fields α
  | [], key, value => [(key, value)]
  | (name, old) :: rest, key, value =>
      if name = key then (name, value) :: rest else (name, old) :: insert rest key value

/-- Writes the entries one after the other, so that a repeated key keeps its first place and its
last value. -/
def ofList (entries : List (String × α)) : Fields α :=
  entries.foldl (fun fields entry => fields.insert entry.1 entry.2) []

def keys (fields : Fields α) : List String :=
  fields.map Prod.fst

def Distinct (fields : Fields α) : Prop :=
  fields.keys.Nodup

@[simp]
theorem keys_nil : keys ([] : Fields α) = [] :=
  rfl

@[simp]
theorem keys_cons (key : String) (value : α) (rest : Fields α) :
    keys ((key, value) :: rest) = key :: keys rest :=
  rfl

@[simp]
theorem get?_nil (key : String) : get? ([] : Fields α) key = none :=
  rfl

theorem get?_cons (name : String) (value : α) (rest : Fields α) (key : String) :
    get? ((name, value) :: rest) key = if name = key then some value else get? rest key :=
  rfl

theorem get?_isSome_iff (fields : Fields α) (key : String) :
    (fields.get? key).isSome ↔ key ∈ fields.keys := by
  induction fields with
  | nil => simp
  | cons entry rest ih =>
      obtain ⟨name, value⟩ := entry
      rw [get?_cons, keys_cons, List.mem_cons]
      split
      · rename_i same
        simp [same]
      · rename_i different
        simp [ih, Ne.symm different]

theorem get?_eq_none_iff {fields : Fields α} {key : String} :
    fields.get? key = none ↔ key ∉ fields.keys := by
  rw [← get?_isSome_iff, Option.not_isSome_iff_eq_none]

theorem mem_of_get?_eq_some {fields : Fields α} {key : String} {value : α}
    (found : fields.get? key = some value) : (key, value) ∈ fields := by
  induction fields with
  | nil => simp at found
  | cons entry rest ih =>
      obtain ⟨name, first⟩ := entry
      rw [get?_cons] at found
      split at found
      · rename_i same
        cases same
        cases found
        exact List.mem_cons_self
      · exact List.mem_cons_of_mem _ (ih found)

theorem get?_insert_self (fields : Fields α) (key : String) (value : α) :
    (fields.insert key value).get? key = some value := by
  induction fields with
  | nil => simp [insert, get?]
  | cons entry rest ih =>
      obtain ⟨name, old⟩ := entry
      by_cases same : name = key <;> simp [insert, get?, same, ih]

theorem get?_insert_of_ne (fields : Fields α) {key other : String} (value : α)
    (different : key ≠ other) : (fields.insert key value).get? other = fields.get? other := by
  induction fields with
  | nil => simp [insert, get?, different]
  | cons entry rest ih =>
      obtain ⟨name, old⟩ := entry
      by_cases same : name = key
      · subst same
        simp [insert, get?, different]
      · simp [insert, get?, same, ih]

/-- A new key is written at the end. -/
theorem insert_of_notMem {fields : Fields α} {key : String} {value : α}
    (fresh : key ∉ fields.keys) : fields.insert key value = fields ++ [(key, value)] := by
  induction fields with
  | nil => rfl
  | cons entry rest ih =>
      rcases entry with ⟨name, old⟩
      simp only [keys_cons, List.mem_cons, not_or] at fresh
      simp only [insert, if_neg (Ne.symm fresh.1), ih fresh.2, List.cons_append]

/-- Writing a value changes the keys only by adding a new key at the end. -/
theorem keys_insert (fields : Fields α) (key : String) (value : α) :
    (fields.insert key value).keys =
      if key ∈ fields.keys then fields.keys else fields.keys ++ [key] := by
  induction fields with
  | nil => simp [insert]
  | cons entry rest ih =>
      obtain ⟨name, old⟩ := entry
      by_cases same : name = key
      · subst same
        simp [insert]
      · simp only [insert, if_neg same, keys_cons, ih, List.mem_cons, Ne.symm same, false_or]
        split <;> simp

theorem distinct_insert {fields : Fields α} (distinct : fields.Distinct) (key : String)
    (value : α) : (fields.insert key value).Distinct := by
  unfold Distinct at *
  rw [keys_insert]
  split
  · exact distinct
  · rename_i fresh
    rw [List.nodup_append]
    refine ⟨distinct, by simp, ?_⟩
    intro name member other otherMember
    rw [List.mem_singleton] at otherMember
    rintro rfl
    exact fresh (otherMember ▸ member)

/-- Whatever entries are written, the result has distinct keys. -/
theorem distinct_ofList (entries : List (String × α)) : (ofList entries).Distinct := by
  have fromAny : ∀ (start : Fields α), start.Distinct →
      Distinct (entries.foldl (fun fields entry => fields.insert entry.1 entry.2) start) := by
    induction entries with
    | nil => exact fun _ distinct => distinct
    | cons entry rest ih =>
        exact fun start distinct => ih _ (distinct_insert distinct entry.1 entry.2)
  exact fromAny [] List.nodup_nil

end Fields

end GraphTemplate
