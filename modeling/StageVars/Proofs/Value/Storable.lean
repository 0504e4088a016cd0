import StageVars.Proofs.Number.Fits
import StageVars.Proofs.Value.DistinctKeys
/-!
# StageVars.Proofs.Value.Storable -- trees that a JSON document can hold without loss

A tree can be stored as JSON and comes back as it was, if its objects name each key once, all its
numbers are integers that 64 bits hold, and its containers do not nest too deeply.

* `nesting`, `isIntegral`: the depth of a tree, and its numbers.
* `storable_array_iff`, `storable_object_iff`: a storable container has storable parts that nest
  one less deeply.
-/

namespace StageVars

namespace Value

mutual

/-- How many containers of a tree nest inside each other. -/
def nesting : Value → Nat
  | .null | .bool _ | .number _ | .string _ => 0
  | .array items => itemNesting items + 1
  | .object fields => fieldNesting fields + 1

/-- The greatest nesting of some items. -/
def itemNesting : List Value → Nat
  | [] => 0
  | v :: rest => max v.nesting (itemNesting rest)

/-- The greatest nesting of the values of some entries. -/
def fieldNesting : Fields → Nat
  | [] => 0
  | (_, v) :: rest => max v.nesting (fieldNesting rest)

end

mutual

/-- Whether all numbers of a tree are integers that 64 bits hold. -/
def isIntegral : Value → Bool
  | .null | .bool _ | .string _ => true
  | .number (.integer i) => (Number.integer i).Fits
  | .number (.float _) => false
  | .array items => itemsIntegral items
  | .object fields => fieldsIntegral fields

/-- `isIntegral` of every item. -/
def itemsIntegral : List Value → Bool
  | [] => true
  | v :: rest => v.isIntegral && itemsIntegral rest

/-- `isIntegral` of every entry's value. -/
def fieldsIntegral : Fields → Bool
  | [] => true
  | (_, v) :: rest => v.isIntegral && fieldsIntegral rest

end

theorem itemNesting_le_iff (items : List Value) (depth : Nat) :
    itemNesting items ≤ depth ↔ ∀ v ∈ items, v.nesting ≤ depth := by
  induction items with
  | nil => simp [itemNesting]
  | cons v rest ih => simp [itemNesting, ih]

theorem fieldNesting_le_iff (fields : Fields) (depth : Nat) :
    fieldNesting fields ≤ depth ↔ ∀ entry ∈ fields, entry.2.nesting ≤ depth := by
  induction fields with
  | nil => simp [fieldNesting]
  | cons entry rest ih => simp [fieldNesting, ih]

theorem isIntegral_array_iff (items : List Value) :
    (array items).isIntegral ↔ ∀ v ∈ items, v.isIntegral := by
  rw [isIntegral]
  induction items with
  | nil => simp [itemsIntegral]
  | cons v rest ih => simp [itemsIntegral, ih]

theorem isIntegral_object_iff (fields : Fields) :
    (object fields).isIntegral ↔ ∀ entry ∈ fields, entry.2.isIntegral := by
  rw [isIntegral]
  induction fields with
  | nil => simp [fieldsIntegral]
  | cons entry rest ih => simp [fieldsIntegral, ih]

/-- A tree of which nothing is lost in a document with at most `depth` containers inside each
other. -/
structure Storable (depth : Nat) (v : Value) : Prop where
  distinct : v.DistinctKeys
  integral : v.isIntegral
  nesting : v.nesting ≤ depth

theorem not_storable_zero_array (items : List Value) : ¬ (array items).Storable 0 :=
  fun h => absurd h.nesting (Nat.not_succ_le_zero _)

theorem not_storable_zero_object (fields : Fields) : ¬ (object fields).Storable 0 :=
  fun h => absurd h.nesting (Nat.not_succ_le_zero _)

theorem storable_array_iff (items : List Value) (depth : Nat) :
    (array items).Storable (depth + 1) ↔ ∀ v ∈ items, v.Storable depth := by
  constructor
  · rintro ⟨hdistinct, hintegral, hnesting⟩ v hv
    rw [nesting, Nat.add_le_add_iff_right, itemNesting_le_iff] at hnesting
    exact ⟨(distinctKeys_array_iff items).mp hdistinct v hv,
      (isIntegral_array_iff items).mp hintegral v hv, hnesting v hv⟩
  · intro h
    refine ⟨(distinctKeys_array_iff items).mpr fun v hv => (h v hv).distinct,
      (isIntegral_array_iff items).mpr fun v hv => (h v hv).integral, ?_⟩
    rw [nesting, Nat.add_le_add_iff_right, itemNesting_le_iff]
    exact fun v hv => (h v hv).nesting

theorem storable_object_iff (fields : Fields) (depth : Nat) :
    (object fields).Storable (depth + 1)
      ↔ (Fields.keys fields).Nodup ∧ ∀ entry ∈ fields, entry.2.Storable depth := by
  constructor
  · rintro ⟨hdistinct, hintegral, hnesting⟩
    rw [distinctKeys_object_iff] at hdistinct
    rw [nesting, Nat.add_le_add_iff_right, fieldNesting_le_iff] at hnesting
    refine ⟨hdistinct.1, fun entry hentry => ⟨hdistinct.2 entry hentry, ?_, hnesting entry hentry⟩⟩
    exact (isIntegral_object_iff fields).mp hintegral entry hentry
  · rintro ⟨hnodup, h⟩
    refine ⟨(distinctKeys_object_iff fields).mpr
        ⟨hnodup, fun entry hentry => (h entry hentry).distinct⟩,
      (isIntegral_object_iff fields).mpr fun entry hentry => (h entry hentry).integral, ?_⟩
    rw [nesting, Nat.add_le_add_iff_right, fieldNesting_le_iff]
    exact fun entry hentry => (h entry hentry).nesting

end Value

end StageVars
