import StageVars.Value.Basic
/-!
# StageVars.Value.Fields -- objects as ordered entries

Writing to a key that is there keeps its place; a new key comes last. The view of an
object is `get?`, and `get?_insert_self`, `get?_insert_of_ne` and `keys_insert` say
all that a write does to it.
-/

namespace StageVars

namespace Fields

/-- The value at a key. -/
def get? : Fields → String → Option Value
  | [], _ => none
  | (k, v) :: rest, key => if k = key then some v else get? rest key

/-- The keys in order. -/
def keys (fields : Fields) : List String := fields.map Prod.fst

/-- Write a value to a key: in its place, or behind all other keys. -/
def insert : Fields → String → Value → Fields
  | [], key, value => [(key, value)]
  | (k, v) :: rest, key, value =>
    if k = key then (key, value) :: rest else (k, v) :: insert rest key value

/-- Write entries one after the other, later ones winning. -/
def insertAll (fields entries : Fields) : Fields :=
  entries.foldl (fun acc entry => insert acc entry.1 entry.2) fields

/-- The object that a list of entries describes: each key once, where it came first,
with the value that came last. -/
def ofEntries (entries : Fields) : Fields := insertAll [] entries

/-! ## What a write does -/

@[simp] theorem get?_nil (key : String) : get? [] key = none := rfl

@[simp] theorem get?_insert_self (fields : Fields) (key : String) (value : Value) :
    get? (insert fields key value) key = some value := by
  induction fields with
  | nil => simp [insert, get?]
  | cons entry rest ih =>
    obtain ⟨k, v⟩ := entry
    by_cases h : k = key <;> simp [insert, get?, h, ih]

theorem get?_insert_of_ne (fields : Fields) {key other : String} (value : Value)
    (h : other ≠ key) : get? (insert fields key value) other = get? fields other := by
  induction fields with
  | nil => simp [insert, get?, Ne.symm h]
  | cons entry rest ih =>
    obtain ⟨k, v⟩ := entry
    by_cases hk : k = key
    · subst hk
      simp [insert, get?, Ne.symm h]
    · by_cases ho : k = other
      · simp [insert, get?, ho, h]
      · simp [insert, get?, hk, ho, ih]

/-- A write adds its key to the end unless it is there. -/
theorem keys_insert (fields : Fields) (key : String) (value : Value) :
    keys (insert fields key value)
      = if key ∈ keys fields then keys fields else keys fields ++ [key] := by
  induction fields with
  | nil => simp [insert, keys]
  | cons entry rest ih =>
    obtain ⟨k, v⟩ := entry
    simp only [keys] at ih
    by_cases hk : k = key
    · subst hk
      simp [insert, keys]
    · by_cases hm : key ∈ rest.map Prod.fst <;>
        simp_all [insert, keys, Ne.symm hk]

/-- A key has a value exactly when it is one of the keys. -/
theorem get?_isSome_iff (fields : Fields) (key : String) :
    (get? fields key).isSome ↔ key ∈ keys fields := by
  induction fields with
  | nil => simp [keys]
  | cons entry rest ih =>
    obtain ⟨k, v⟩ := entry
    by_cases hk : k = key
    · simp [get?, keys, hk]
    · simp only [keys] at ih
      simp [get?, keys, hk, Ne.symm hk, ih]

end Fields

namespace Value

/-- The value at a key of an object; any other tree has none. -/
def get? : Value → String → Option Value
  | .object fields, key => Fields.get? fields key
  | _, _ => none

/-- The entries of an object; any other tree has none. -/
def entries : Value → Fields
  | .object fields => fields
  | _ => []

/-- The value reached by walking through objects along a path of keys. -/
def at? : Value → List String → Option Value
  | v, [] => some v
  | v, key :: path => (v.get? key).bind (at? · path)

end Value

end StageVars
