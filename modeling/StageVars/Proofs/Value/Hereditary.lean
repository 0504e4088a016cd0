import StageVars.Proofs.Number.Fits
import StageVars.Proofs.Value.DistinctKeys
/-!
# StageVars.Proofs.Value.Hereditary -- properties that trees get from their parts

A property of trees is hereditary if a tree has it as soon as its parts have it, and its parts
whenever it has it. Whatever reads trees from a text or puts trees together from others passes
such a property on, so that this is proved once for every one of them.

* `Hereditary.insertAll`, `Hereditary.ofEntries`: objects that are written entry by entry.
* `hereditary_distinctKeys`, `hereditary_numbersFit`: two such properties.
-/

namespace StageVars

namespace Value

/-- A property that all leaves have, that arrays share with their items, and that objects get
from what is written to them and pass on to their entries. -/
structure Hereditary (P : Value → Prop) : Prop where
  null : P .null
  bool : ∀ b, P (.bool b)
  number : ∀ n : Number, n.Fits → P (.number n)
  string : ∀ s, P (.string s)
  array_iff : ∀ items, P (.array items) ↔ ∀ v ∈ items, P v
  empty : P (.object [])
  insert : ∀ {fields value}, P (.object fields) → ∀ key, P value →
    P (.object (Fields.insert fields key value))
  entry : ∀ {fields}, P (.object fields) → ∀ entry ∈ fields, P entry.2

namespace Hereditary

variable {P : Value → Prop} (hP : Hereditary P)

include hP

theorem get? {fields : Fields} (h : P (.object fields)) {key : String} {v : Value}
    (hv : Fields.get? fields key = some v) : P v :=
  hP.entry h _ (Fields.mem_of_get? hv)

theorem insertAll {fields entries : Fields} (h : P (.object fields))
    (hentries : ∀ entry ∈ entries, P entry.2) :
    P (.object (Fields.insertAll fields entries)) := by
  induction entries generalizing fields with
  | nil => exact h
  | cons entry rest ih =>
    obtain ⟨hentry, hrest⟩ := List.forall_mem_cons.mp hentries
    exact ih (hP.insert h entry.1 hentry) hrest

theorem ofEntries {entries : Fields} (hentries : ∀ entry ∈ entries, P entry.2) :
    P (.object (Fields.ofEntries entries)) :=
  hP.insertAll hP.empty hentries

end Hereditary

theorem hereditary_distinctKeys : Hereditary DistinctKeys where
  null := trivial
  bool _ := trivial
  number _ _ := trivial
  string _ := trivial
  array_iff := distinctKeys_array_iff
  empty := distinctKeys_empty
  insert h key hvalue := distinctKeys_insert h key hvalue
  entry h := ((distinctKeys_object_iff _).mp h).2

/-! ## Numbers -/

mutual

/-- All numbers of a tree fit. -/
def NumbersFit : Value → Prop
  | .null | .bool _ | .string _ => True
  | .number n => n.Fits
  | .array items => ItemNumbersFit items
  | .object fields => FieldNumbersFit fields

/-- `NumbersFit` of every item. -/
def ItemNumbersFit : List Value → Prop
  | [] => True
  | v :: rest => v.NumbersFit ∧ ItemNumbersFit rest

/-- `NumbersFit` of every entry's value. -/
def FieldNumbersFit : Fields → Prop
  | [] => True
  | (_, v) :: rest => v.NumbersFit ∧ FieldNumbersFit rest

end

theorem numbersFit_array_iff (items : List Value) :
    (array items).NumbersFit ↔ ∀ v ∈ items, v.NumbersFit := by
  rw [NumbersFit]
  induction items with
  | nil => simp [ItemNumbersFit]
  | cons v rest ih => simp [ItemNumbersFit, ih]

theorem numbersFit_object_iff (fields : Fields) :
    (object fields).NumbersFit ↔ ∀ entry ∈ fields, entry.2.NumbersFit := by
  rw [NumbersFit]
  induction fields with
  | nil => simp [FieldNumbersFit]
  | cons entry rest ih => simp [FieldNumbersFit, ih]

theorem hereditary_numbersFit : Hereditary NumbersFit where
  null := trivial
  bool _ := trivial
  number _ h := h
  string _ := trivial
  array_iff := numbersFit_array_iff
  empty := trivial
  insert h key hvalue := by
    rw [numbersFit_object_iff] at h ⊢
    intro entry hentry
    rcases Fields.mem_insert hentry with rfl | hold
    · exact hvalue
    · exact h entry hold
  entry h := (numbersFit_object_iff _).mp h

end Value

end StageVars
