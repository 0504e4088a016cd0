import StageVars.Value.Fields
/-!
# StageVars.Proofs.Value.DistinctKeys -- trees whose objects name each key once

An object is a list of entries, and as a list it could name a key twice; an object that
was written key by key does not. `DistinctKeys` says so for a tree and all that is in it.

* `distinctKeys_object_iff`: the form in which it is used.
* `distinctKeys_insert`: writing an entry keeps keys distinct.
-/

namespace StageVars

namespace Fields

theorem keys_cons (key : String) (value : Value) (rest : Fields) :
    keys ((key, value) :: rest) = key :: keys rest := rfl

/-- A key has no value exactly when it is not one of the keys. -/
theorem get?_eq_none_iff (fields : Fields) (key : String) :
    get? fields key = none ↔ key ∉ keys fields := by
  rw [← get?_isSome_iff, Option.isSome_iff_ne_none, Classical.not_not]

/-- What is found at a key is one of the entries. -/
theorem mem_of_get? {fields : Fields} {key : String} {value : Value}
    (h : get? fields key = some value) : (key, value) ∈ fields := by
  induction fields with
  | nil => cases h
  | cons entry rest ih =>
    obtain ⟨k, v⟩ := entry
    by_cases hk : k = key
    · subst hk
      simp only [get?, if_true, Option.some.injEq] at h
      simp [h]
    · simp only [get?, if_neg hk] at h
      exact List.mem_cons_of_mem _ (ih h)

/-- A write puts one entry into an object and takes over none but its own. -/
theorem mem_insert {fields : Fields} {key : String} {value : Value} {entry : String × Value}
    (h : entry ∈ insert fields key value) : entry = (key, value) ∨ entry ∈ fields := by
  induction fields with
  | nil => exact Or.inl (List.mem_singleton.mp h)
  | cons first rest ih =>
    obtain ⟨k, v⟩ := first
    rw [insert] at h
    split at h
    · exact (List.mem_cons.mp h).imp_right (List.mem_cons_of_mem _)
    · rcases List.mem_cons.mp h with rfl | hrest
      · exact Or.inr List.mem_cons_self
      · exact (ih hrest).imp_right (List.mem_cons_of_mem _)

theorem nodup_keys_insert {fields : Fields} (h : (keys fields).Nodup) (key : String)
    (value : Value) : (keys (insert fields key value)).Nodup := by
  rw [keys_insert]
  split
  next => exact h
  next hnew =>
    rw [List.nodup_append]
    refine ⟨h, List.nodup_cons.mpr ⟨List.not_mem_nil, List.nodup_nil⟩, ?_⟩
    intro a ha b hb hab
    obtain rfl := List.mem_singleton.mp hb
    exact hnew (hab ▸ ha)

end Fields

namespace Value

mutual

/-- Every object of a tree names each of its keys once. -/
def DistinctKeys : Value → Prop
  | .null | .bool _ | .number _ | .string _ => True
  | .array items => DistinctItems items
  | .object fields => (Fields.keys fields).Nodup ∧ DistinctFields fields

/-- `DistinctKeys` of every item. -/
def DistinctItems : List Value → Prop
  | [] => True
  | v :: rest => v.DistinctKeys ∧ DistinctItems rest

/-- `DistinctKeys` of every entry's value. -/
def DistinctFields : Fields → Prop
  | [] => True
  | (_, v) :: rest => v.DistinctKeys ∧ DistinctFields rest

end

mutual

/-- Deciding `DistinctKeys`. -/
def decDistinctKeys (v : Value) : Decidable v.DistinctKeys :=
  match v with
  | .null | .bool _ | .number _ | .string _ => isTrue trivial
  | .array items => decDistinctItems items
  | .object fields => @instDecidableAnd _ _ inferInstance (decDistinctFields fields)

/-- Deciding `DistinctItems`. -/
def decDistinctItems (items : List Value) : Decidable (DistinctItems items) :=
  match items with
  | [] => isTrue trivial
  | v :: rest => @instDecidableAnd _ _ (decDistinctKeys v) (decDistinctItems rest)

/-- Deciding `DistinctFields`. -/
def decDistinctFields (fields : Fields) : Decidable (DistinctFields fields) :=
  match fields with
  | [] => isTrue trivial
  | (_, v) :: rest => @instDecidableAnd _ _ (decDistinctKeys v) (decDistinctFields rest)

end

instance (v : Value) : Decidable v.DistinctKeys := decDistinctKeys v

theorem distinctFields_iff (fields : Fields) :
    DistinctFields fields ↔ ∀ entry ∈ fields, entry.2.DistinctKeys := by
  induction fields with
  | nil => simp [DistinctFields]
  | cons entry rest ih => simp [DistinctFields, ih]

/-- An object names each key once, and so does everything in it. -/
theorem distinctKeys_object_iff (fields : Fields) :
    (object fields).DistinctKeys
      ↔ (Fields.keys fields).Nodup ∧ ∀ entry ∈ fields, entry.2.DistinctKeys := by
  rw [DistinctKeys, distinctFields_iff]

/-- What stands at a key of an object with distinct keys has distinct keys. -/
theorem DistinctKeys.get? {fields : Fields} (h : (object fields).DistinctKeys) {key : String}
    {v : Value} (hv : Fields.get? fields key = some v) : v.DistinctKeys :=
  ((distinctKeys_object_iff fields).mp h).2 _ (Fields.mem_of_get? hv)

/-- The keys of an object with distinct keys. -/
theorem DistinctKeys.nodup {fields : Fields} (h : (object fields).DistinctKeys) :
    (Fields.keys fields).Nodup :=
  ((distinctKeys_object_iff fields).mp h).1

/-! ## Writing -/

theorem distinctKeys_empty : (object []).DistinctKeys := ⟨List.nodup_nil, trivial⟩

theorem distinctKeys_insert {fields : Fields} (h : (object fields).DistinctKeys) (key : String)
    {value : Value} (hvalue : value.DistinctKeys) :
    (object (Fields.insert fields key value)).DistinctKeys := by
  rw [distinctKeys_object_iff] at h ⊢
  refine ⟨Fields.nodup_keys_insert h.1 key value, ?_⟩
  intro entry hentry
  rcases Fields.mem_insert hentry with rfl | hold
  · exact hvalue
  · exact h.2 entry hold

theorem distinctKeys_array_iff (items : List Value) :
    (array items).DistinctKeys ↔ ∀ v ∈ items, v.DistinctKeys := by
  rw [DistinctKeys]
  induction items with
  | nil => simp [DistinctItems]
  | cons v rest ih => simp [DistinctItems, ih]

end Value

end StageVars
