import StageVars.Json.Numeral
import StageVars.Proofs.Number.Finite
import StageVars.Yaml.Schema
/-!
# StageVars.Proofs.Number.Fits -- the numbers that documents can hold

A number fits if 64 bits hold it: an integer between `-2 ^ 63` and `2 ^ 64 - 1`, or a finite
floating-point number. Whatever the form of a document, the numbers that are read from it fit.

* `fits_number?`: the number of a JSON numeral.
* `fits_meaning`: the number that a plain scalar means.
-/

namespace StageVars

/-- A number that 64 bits hold. -/
def Number.Fits : Number → Prop
  | .integer i => -2 ^ 63 ≤ i ∧ i < 2 ^ 64
  | .float x => x.IsFinite

instance : ∀ n : Number, Decidable n.Fits
  | .integer i => inferInstanceAs (Decidable (-2 ^ 63 ≤ i ∧ i < 2 ^ 64))
  | .float x => inferInstanceAs (Decidable x.IsFinite)

namespace Json

namespace Numeral

theorem isFinite_scale? {s : ℕ} {e : ℤ} {x : Binary64} (h : scale? s e = some x) : x.IsFinite := by
  rw [scale?] at h
  split at h
  · cases h
    exact Binary64.isFinite_zero
  · obtain ⟨significand, -, h⟩ := Option.bind_eq_some_iff.mp h
    split at h
    · cases h
    split at h
    · obtain ⟨power, -, h⟩ := Option.bind_eq_some_iff.mp h
      exact Binary64.isFinite_mul? h
    split at h
    · obtain ⟨power, hpower, h⟩ := Option.bind_eq_some_iff.mp h
      exact Binary64.isFinite_div? (Binary64.significand_ofDecimal?_pos (by omega) hpower) h
    split at h
    · obtain ⟨greatest, -, h⟩ := Option.bind_eq_some_iff.mp h
      obtain ⟨quotient, -, h⟩ := Option.bind_eq_some_iff.mp h
      split at h
      · cases h
        exact Binary64.isFinite_zero
      · obtain ⟨power, hpower, h⟩ := Option.bind_eq_some_iff.mp h
        exact Binary64.isFinite_div? (Binary64.significand_ofDecimal?_pos (by omega) hpower) h
    · cases h
      exact Binary64.isFinite_zero

theorem isFinite_float? {n : Numeral} {x : Binary64} (h : n.float? = some x) : x.IsFinite := by
  obtain ⟨magnitude, hscale, h⟩ := Option.bind_eq_some_iff.mp h
  cases h
  exact (isFinite_scale? hscale).withSign _

theorem fits_map_float? {n : Numeral} {x : Number} (h : n.float?.map .float = some x) :
    x.Fits := by
  obtain ⟨y, hy, rfl⟩ := Option.map_eq_some_iff.mp h
  exact isFinite_float? hy

/-- The number of a numeral fits. -/
theorem fits_number? {n : Numeral} {x : Number} (h : n.number? = some x) : x.Fits := by
  rw [number?] at h
  split at h
  next =>
    dsimp only at h
    split at h
    next =>
      split at h
      next hrange =>
        cases h
        have hmax : Nat.pow 2 63 = 2 ^ 63 := rfl
        rw [hmax] at hrange
        exact ⟨by omega, by omega⟩
      next => exact fits_map_float? h
    next =>
      split at h
      next hrange =>
        cases h
        have hmax : maxWord = 2 ^ 64 - 1 := rfl
        rw [hmax] at hrange
        exact ⟨by omega, by omega⟩
      next => exact fits_map_float? h
  next => exact fits_map_float? h

end Numeral

end Json

namespace Yaml

/-- A meaning that is a number only if it is one that fits. -/
def Meaning.Fits : Meaning → Prop
  | .integer n => (Number.integer n).Fits
  | .float (some x) => (Number.float x).Fits
  | _ => True

namespace Schema

/-- A mantissa and a power of ten are rounded, and the sign stands before. -/
theorem isFinite_of_rounded {power? : Option ℤ} {n digits : ℕ} {negative : Bool} {x : Binary64}
    (h : (do
      let e ← power?
      let x ← Binary64.ofDecimal? n (e - digits)
      return x.withSign negative) = some x) : x.IsFinite := by
  obtain ⟨e, -, h⟩ := Option.bind_eq_some_iff.mp h
  obtain ⟨magnitude, hmagnitude, h⟩ := Option.bind_eq_some_iff.mp h
  cases h
  exact (Binary64.isFinite_ofDecimal? hmagnitude).withSign _

theorem isFinite_finite? {cs : List Char} {x : Binary64} (h : finite? cs = some x) :
    x.IsFinite := by
  simp only [finite?] at h
  split at h
  all_goals
    split at h
    · cases h
    · exact isFinite_of_rounded h

theorem fits_of_float? {s : String} {x : Option Binary64} (h : float? s = some x) :
    (Meaning.float x).Fits := by
  rw [float?] at h
  split at h
  · cases h
    trivial
  · obtain ⟨y, hy, rfl⟩ := Option.map_eq_some_iff.mp h
    exact isFinite_finite? hy

theorem fits_of_integerMeaning? {s : String} {m : Meaning} (h : integerMeaning? s = some m) :
    m.Fits := by
  rw [integerMeaning?] at h
  split at h
  next =>
    split at h
    next hfits =>
      cases h
      rw [fits, Bool.and_eq_true, decide_eq_true_eq, decide_eq_true_eq] at hfits
      exact hfits
    next =>
      split at h <;> cases h
      trivial
  next => cases h

/-- The meaning of a plain scalar is a number only if that fits. -/
theorem fits_meaning (s : String) : (meaning s).Fits := by
  rw [meaning]
  split
  · trivial
  · split
    next => trivial
    next =>
      split
      next hinteger => exact fits_of_integerMeaning? hinteger
      next =>
        split
        · trivial
        · split
          next hfloat => exact fits_of_float? hfloat
          next => trivial

end Schema

end Yaml

end StageVars
