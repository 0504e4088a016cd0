import StageVars.Merge
import StageVars.Proofs.Value.Paths
/-!
# StageVars.Proofs.Merge.Deep -- one object over another, key by key and path by path

`get?_deepFields` says what a key holds after a deep merge of two objects, and
`at?_deepOver` what stands at the end of a path: the incoming tree decides if it holds
something there or bars the way, and otherwise the path leads where it led before.
-/

namespace StageVars

namespace Merge

/-! ## One value over another -/

theorem deepOver_object_object (existing incoming : Fields) :
    deepOver (some (.object existing)) (.object incoming)
      = .object (deepFields existing incoming) := by
  rw [deepOver]

/-- What is no object replaces everything. -/
theorem deepOver_of_isObject_eq_false (before : Option Value) {v : Value}
    (h : v.isObject = false) : deepOver before v = v := by
  cases v <;> first | rfl | cases h

/-- Over nothing a value comes out as it came in. -/
@[simp] theorem deepOver_none (v : Value) : deepOver none v = v := by
  cases v <;> rfl

/-- Unless an object stands there, the incoming value replaces what does, and no key
leads out of that. -/
theorem object_or_deepOver_eq (before : Option Value) :
    (∃ existing, before = some (.object existing))
      ∨ (∀ v, deepOver before v = v) ∧ ∀ key, before.bind (·.get? key) = none := by
  have replaced (h : ∀ existing, before ≠ some (.object existing)) (v : Value) :
      deepOver before v = v := by
    cases v with
    | object incoming =>
      rw [deepOver]
      exact h
    | _ => rfl
  cases before with
  | none => exact Or.inr ⟨replaced (by simp), fun _ => rfl⟩
  | some b =>
    cases b with
    | object existing => exact Or.inl ⟨existing, rfl⟩
    | _ => exact Or.inr ⟨replaced (by simp), fun _ => rfl⟩

/-- Over something that is no object a value comes out as it came in. -/
theorem deepOver_some_of_isObject_eq_false {w : Value} (h : w.isObject = false) (v : Value) :
    deepOver (some w) v = v := by
  rcases object_or_deepOver_eq (some w) with ⟨existing, hobj⟩ | ⟨hreplaced, -⟩
  · obtain rfl := Option.some.inj hobj
    cases h
  · exact hreplaced v

/-- What comes out is an object exactly when an object came in. -/
@[simp] theorem isObject_deepOver (before : Option Value) (v : Value) :
    (deepOver before v).isObject = v.isObject := by
  rcases object_or_deepOver_eq before with ⟨existing, rfl⟩ | ⟨hreplaced, -⟩
  · cases v with
    | object incoming => rw [deepOver_object_object]; rfl
    | _ => rfl
  · rw [hreplaced]

/-- A value that is no object comes out exactly when it came in. -/
theorem deepOver_eq_iff {before : Option Value} {v w : Value} (hw : w.isObject = false) :
    deepOver before v = w ↔ v = w := by
  constructor
  · intro h
    have hv : v.isObject = false := by rw [← isObject_deepOver before v, h, hw]
    rw [← h, deepOver_of_isObject_eq_false before hv]
  · rintro rfl
    exact deepOver_of_isObject_eq_false before hw

/-! ## Key by key -/

@[simp] theorem deepFields_nil (target : Fields) : deepFields target [] = target := by
  rw [deepFields]

@[simp] theorem deepFields_cons (target : Fields) (key : String) (value : Value) (rest : Fields) :
    deepFields target ((key, value) :: rest)
      = deepFields (Fields.insert target key (deepOver (Fields.get? target key) value)) rest := by
  rw [deepFields]

/-- A key that does not come in keeps its value; at any other the incoming value is laid
over the old one. -/
theorem get?_deepFields (target : Fields) {source : Fields} (h : (Fields.keys source).Nodup)
    (key : String) :
    Fields.get? (deepFields target source) key
      = match Fields.get? source key with
        | none => Fields.get? target key
        | some v => some (deepOver (Fields.get? target key) v) := by
  induction source generalizing target with
  | nil => simp
  | cons entry rest ih =>
    obtain ⟨k, v⟩ := entry
    rw [Fields.keys_cons, List.nodup_cons] at h
    rw [deepFields_cons, ih _ h.2]
    by_cases hk : k = key
    · -- the key comes first, so it does not come again
      subst hk
      rw [(Fields.get?_eq_none_iff rest k).mpr h.1]
      simp [Fields.get?]
    · simp only [Fields.get?, if_neg hk, Fields.get?_insert_of_ne _ _ (Ne.symm hk)]

/-! ## Path by path -/

/-- What a key of the result holds when an object was laid over something. -/
theorem get?_deepOver_object (before : Option Value) {incoming : Fields}
    (h : (Fields.keys incoming).Nodup) (key : String) :
    (deepOver before (.object incoming)).get? key
      = match Fields.get? incoming key with
        | none => before.bind (·.get? key)
        | some v => some (deepOver (before.bind (·.get? key)) v) := by
  rcases object_or_deepOver_eq before with ⟨existing, rfl⟩ | ⟨hreplaced, hget⟩
  · rw [deepOver_object_object]
    exact get?_deepFields existing h key
  · rw [hreplaced, hget]
    show Fields.get? incoming key = _
    cases Fields.get? incoming key with
    | none => rfl
    | some v => exact congrArg some (deepOver_none v).symm

/-- Where the incoming value holds something, that is laid over what was there. -/
theorem at?_deepOver_of_some (before : Option Value) {value v : Value} (h : value.DistinctKeys)
    {path : List String} (hv : value.at? path = some v) :
    (deepOver before value).at? path = some (deepOver (before.bind (·.at? path)) v) := by
  induction path generalizing before value with
  | nil =>
    obtain rfl : value = v := Option.some.inj hv
    simp
  | cons key path ih =>
    cases value with
    | object incoming =>
      rw [Value.at?_object_cons, Option.bind_eq_some_iff] at hv
      obtain ⟨w, hw, hv⟩ := hv
      rw [Value.at?_cons, get?_deepOver_object before h.nodup, hw]
      simp only [Option.bind_some]
      rw [ih (before.bind (·.get? key)) (h.get? hw) hv]
      simp only [Value.at?_cons, Option.bind_assoc]
    | _ => cases hv

/-- Past a bar of the incoming value nothing is left. -/
theorem at?_deepOver_of_bars (before : Option Value) {value : Value} (h : value.DistinctKeys)
    {path : List String} (hbars : value.Bars path) :
    (deepOver before value).at? path = none := by
  induction path generalizing before value with
  | nil => exact absurd hbars value.not_bars_nil
  | cons key path ih =>
    cases hobj : value.isObject with
    | false =>
      rw [deepOver_of_isObject_eq_false before hobj]
      exact Value.at?_cons_of_isObject_eq_false hobj key path
    | true =>
      obtain ⟨incoming, rfl⟩ := value.isObject_iff.mp hobj
      obtain ⟨w, hw, hbars⟩ := (Value.bars_object_cons_iff incoming key path).mp hbars
      rw [Value.at?_cons, get?_deepOver_object before h.nodup, hw]
      exact ih _ (h.get? hw) hbars

/-- Where the incoming value holds nothing and bars nothing, the path leads where it led
before. -/
theorem at?_deepOver_of_none (before : Option Value) {value : Value} (h : value.DistinctKeys)
    {path : List String} (hnone : value.at? path = none) (hbars : ¬ value.Bars path) :
    (deepOver before value).at? path = before.bind (·.at? path) := by
  induction path generalizing before value with
  | nil => cases hnone
  | cons key path ih =>
    cases hobj : value.isObject with
    | false => exact absurd (Value.bars_cons_of_isObject_eq_false hobj key path) hbars
    | true =>
      obtain ⟨incoming, rfl⟩ := value.isObject_iff.mp hobj
      rw [Value.at?_object_cons] at hnone
      rw [Value.bars_object_cons_iff] at hbars
      rw [Value.at?_cons, get?_deepOver_object before h.nodup]
      cases hw : Fields.get? incoming key with
      | none => simp only [Value.at?_cons, Option.bind_assoc]
      | some w =>
        rw [hw] at hnone
        simp only [Option.bind_some]
        rw [ih (before.bind (·.get? key)) (h.get? hw) hnone
          fun hb => hbars ⟨w, hw, hb⟩]
        simp only [Value.at?_cons, Option.bind_assoc]

end Merge

end StageVars
