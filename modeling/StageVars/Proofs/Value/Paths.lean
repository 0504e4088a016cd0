import StageVars.Proofs.Value.DistinctKeys
/-!
# StageVars.Proofs.Value.Paths -- what lies on the way along a path

A walk along a path passes through objects only. It ends early for one of two reasons:
an object without the next key, or a value that is no object. The second is `Bars`, and
a tree that bars a path holds nothing at its end.
-/

namespace StageVars

namespace Value

theorem isObject_iff (v : Value) : v.isObject = true ↔ ∃ fields, v = .object fields := by
  cases v <;> simp [isObject]

@[simp] theorem isObject_object (fields : Fields) : (object fields).isObject = true := rfl

@[simp] theorem at?_nil (v : Value) : v.at? [] = some v := rfl

theorem at?_cons (v : Value) (key : String) (path : List String) :
    v.at? (key :: path) = (v.get? key).bind (·.at? path) := rfl

@[simp] theorem at?_object_cons (fields : Fields) (key : String) (path : List String) :
    (object fields).at? (key :: path) = (Fields.get? fields key).bind (·.at? path) := rfl

/-- No key leads out of a value that is no object. -/
theorem at?_cons_of_isObject_eq_false {v : Value} (h : v.isObject = false) (key : String)
    (path : List String) : v.at? (key :: path) = none := by
  cases v <;> first | rfl | cases h

/-- What stands at the end of a path in a tree with distinct keys has distinct keys. -/
theorem DistinctKeys.at? {v w : Value} (h : v.DistinctKeys) {path : List String}
    (hw : v.at? path = some w) : w.DistinctKeys := by
  induction path generalizing v with
  | nil => exact Option.some.inj hw ▸ h
  | cons key path ih =>
    cases v with
    | object fields =>
      rw [at?_object_cons, Option.bind_eq_some_iff] at hw
      obtain ⟨u, hu, hw⟩ := hw
      exact ih (h.get? hu) hw
    | _ => cases hw

/-- A value that is no object stands on the way, before the end of the path. -/
def Bars (v : Value) (path : List String) : Prop :=
  ∃ q r, path = q ++ r ∧ r ≠ [] ∧ ∃ w, v.at? q = some w ∧ w.isObject = false

theorem not_bars_nil (v : Value) : ¬ v.Bars [] := by
  rintro ⟨q, r, hpath, hr, -⟩
  exact hr (List.nil_eq_append_iff.mp hpath).2

theorem bars_cons_of_isObject_eq_false {v : Value} (h : v.isObject = false) (key : String)
    (path : List String) : v.Bars (key :: path) :=
  ⟨[], key :: path, rfl, List.cons_ne_nil _ _, v, rfl, h⟩

/-- An object bars a path exactly when the value at the first key bars the rest. -/
theorem bars_object_cons_iff (fields : Fields) (key : String) (path : List String) :
    (object fields).Bars (key :: path) ↔ ∃ v, Fields.get? fields key = some v ∧ v.Bars path := by
  constructor
  · rintro ⟨q, r, hpath, hr, w, hw, hobj⟩
    cases q with
    | nil =>
      -- the walk has not left the object itself
      obtain rfl : object fields = w := Option.some.inj hw
      cases hobj
    | cons k q =>
      obtain ⟨rfl, rfl⟩ := List.cons.inj hpath
      rw [at?_object_cons, Option.bind_eq_some_iff] at hw
      obtain ⟨v, hv, hw⟩ := hw
      exact ⟨v, hv, q, r, rfl, hr, w, hw, hobj⟩
  · rintro ⟨v, hv, q, r, rfl, hr, w, hw, hobj⟩
    refine ⟨key :: q, r, rfl, hr, w, ?_, hobj⟩
    rw [at?_object_cons, hv]
    exact hw

/-- A barred path leads nowhere. -/
theorem Bars.at?_eq_none {v : Value} {path : List String} (h : v.Bars path) :
    v.at? path = none := by
  induction path generalizing v with
  | nil => exact absurd h (not_bars_nil v)
  | cons key path ih =>
    cases hv : v.isObject with
    | false => exact at?_cons_of_isObject_eq_false hv key path
    | true =>
      obtain ⟨fields, rfl⟩ := v.isObject_iff.mp hv
      obtain ⟨w, hw, hbars⟩ := (bars_object_cons_iff fields key path).mp h
      rw [at?_object_cons, hw]
      exact ih hbars

end Value

end StageVars
