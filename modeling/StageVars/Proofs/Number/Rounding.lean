import Mathlib.Algebra.Order.Field.Power
import Mathlib.Algebra.Order.Field.Rat
import Mathlib.Tactic.Linarith
import Mathlib.Tactic.Positivity
import Mathlib.Tactic.Ring
import StageVars.Number.Shortest
/-!
# StageVars.Proofs.Number.Rounding -- the number nearest to a ratio

`x.RoundsTo t` says what rounding is without computing it: among all numbers of 53 binary
digits, with whatever exponent from the least one up, none is nearer to `t` than `x`, and where
another one is as near the significand of `x` is even.

* `le_sub_or_eq_or_add_le`: how far apart two numbers are.
* `roundsTo_of_covers`: all that lies in the interval of a number rounds to it.
-/

namespace StageVars

namespace Binary64

/-- The magnitude of a number, exactly. -/
def magnitude (x : Binary64) : ℚ := x.significand * 2 ^ x.exponent

/-- A significand of 53 binary digits, or of fewer with the least exponent. -/
structure IsFinite (x : Binary64) : Prop where
  significand_lt : x.significand < 2 ^ 53
  minExponent_le : minExponent ≤ x.exponent
  le_maxExponent : x.exponent ≤ maxExponent
  normal : x.exponent = minExponent ∨ 2 ^ 52 ≤ x.significand

instance (x : Binary64) : Decidable x.IsFinite :=
  decidable_of_iff
    (x.significand < 2 ^ 53 ∧ minExponent ≤ x.exponent ∧ x.exponent ≤ maxExponent
      ∧ (x.exponent = minExponent ∨ 2 ^ 52 ≤ x.significand))
    ⟨fun ⟨h₁, h₂, h₃, h₄⟩ => ⟨h₁, h₂, h₃, h₄⟩, fun ⟨h₁, h₂, h₃, h₄⟩ => ⟨h₁, h₂, h₃, h₄⟩⟩

/-- A ratio rounds to a number: to the nearest one, and from the middle of two to the even one.
A ratio nearer to a number beyond the greatest finite one rounds to nothing. -/
structure RoundsTo (x : Binary64) (t : ℚ) : Prop where
  isFinite : x.IsFinite
  nearest : ∀ (m : ℕ) (q : ℤ), m < 2 ^ 53 → minExponent ≤ q →
    |t - x.magnitude| ≤ |t - m * 2 ^ q|
  even : ∀ (m : ℕ) (q : ℤ), m < 2 ^ 53 → minExponent ≤ q → m * 2 ^ q ≠ x.magnitude →
    |t - x.magnitude| = |t - m * 2 ^ q| → Even x.significand

variable {x : Binary64} {t : ℚ}

theorem ratio_den_pos (x : Binary64) : 0 < x.ratio.2 := by
  rw [ratio]
  split
  · exact Nat.pow_pos two_pos
  · exact one_pos

theorem ratio_num_pos (hx : 0 < x.significand) : 0 < x.ratio.1 := by
  rw [ratio]
  split
  · exact hx
  · exact Nat.mul_pos hx (Nat.pow_pos two_pos)

theorem magnitude_eq_ratio (x : Binary64) : x.magnitude = (x.ratio.1 : ℚ) / x.ratio.2 := by
  rw [magnitude, ratio]
  split
  next hneg =>
    obtain ⟨k, hk⟩ : ∃ k : ℕ, x.exponent = -k := ⟨(-x.exponent).toNat, by omega⟩
    simp [hk, zpow_neg, div_eq_mul_inv]
  next hnonneg =>
    obtain ⟨k, hk⟩ : ∃ k : ℕ, x.exponent = k := ⟨x.exponent.toNat, by omega⟩
    simp [hk]

/-! ## Neighbours -/

/-- The distance to the next lower number: half of the distance to the next higher one at a
power of two, unless the unit is the least. -/
def gapBelow (x : Binary64) : ℚ :=
  if x.significand = 2 ^ 52 ∧ minExponent < x.exponent then 2 ^ (x.exponent - 1)
  else 2 ^ x.exponent

theorem two_zpow_pos (q : ℤ) : (0 : ℚ) < 2 ^ q := zpow_pos two_pos q

theorem two_zpow_sub_one (q : ℤ) : (2 : ℚ) ^ (q - 1) = 2 ^ q / 2 := by
  rw [zpow_sub_one₀ two_ne_zero, div_eq_mul_inv]

theorem gapBelow_pos (x : Binary64) : 0 < x.gapBelow := by
  rw [gapBelow]
  split <;> exact two_zpow_pos _

theorem gapBelow_le (x : Binary64) : x.gapBelow ≤ 2 ^ x.exponent := by
  rw [gapBelow]
  split
  · exact zpow_le_zpow_right₀ one_le_two (by omega)
  · exact le_rfl

/-- A number of a greater unit is a multiple of the lesser one. -/
theorem exists_eq_mul_of_le {q q' : ℤ} (h : q ≤ q') (m : ℕ) :
    ∃ k : ℕ, (m : ℚ) * 2 ^ q' = k * 2 ^ q := by
  obtain ⟨d, rfl⟩ : ∃ d : ℕ, q' = q + d := ⟨(q' - q).toNat, by omega⟩
  refine ⟨m * 2 ^ d, ?_⟩
  rw [zpow_add₀ two_ne_zero, zpow_natCast]
  push_cast
  ring

/-- Numbers of lesser units lie below by the whole gap. -/
theorem le_sub_gapBelow_of_lt (hx : x.IsFinite) {m : ℕ} {q : ℤ} (hm : m < 2 ^ 53)
    (hmin : minExponent ≤ q) (hq : q < x.exponent) :
    m * 2 ^ q ≤ x.magnitude - x.gapBelow := by
  have hnormal : 2 ^ 52 ≤ x.significand := hx.normal.resolve_left (by omega)
  have hunit : (2 : ℚ) ^ q ≤ 2 ^ x.exponent / 2 := by
    rw [← two_zpow_sub_one]
    exact zpow_le_zpow_right₀ one_le_two (by omega)
  have hpos := two_zpow_pos q
  have hm' : (m : ℚ) ≤ 2 ^ 53 - 1 := by
    have : m + 1 ≤ 2 ^ 53 := hm
    have : (m : ℚ) + 1 ≤ 2 ^ 53 := by exact_mod_cast this
    linarith
  have hlast : (m : ℚ) * 2 ^ q ≤ (2 ^ 53 - 1) * (2 ^ x.exponent / 2) :=
    mul_le_mul hm' hunit hpos.le (by norm_num)
  rw [magnitude, gapBelow]
  split
  next hpower =>
    rw [hpower.1, two_zpow_sub_one]
    push_cast
    linarith
  next hpower =>
    -- beyond the power of two the next lower number is a whole unit away
    have hbeyond : 2 ^ 52 + 1 ≤ x.significand := by
      have : x.significand ≠ 2 ^ 52 := fun h => hpower ⟨h, by omega⟩
      omega
    have hbeyond : (2 : ℚ) ^ 52 + 1 ≤ x.significand := by exact_mod_cast hbeyond
    have hscaled := mul_le_mul_of_nonneg_right hbeyond (two_zpow_pos x.exponent).le
    linarith [two_zpow_pos x.exponent]

/-- Another number lies below by the gap at least, or above by a unit at least. -/
theorem le_sub_or_eq_or_add_le (hx : x.IsFinite) {m : ℕ} {q : ℤ} (hm : m < 2 ^ 53)
    (hmin : minExponent ≤ q) :
    m * 2 ^ q ≤ x.magnitude - x.gapBelow ∨ m * 2 ^ q = x.magnitude
      ∨ x.magnitude + 2 ^ x.exponent ≤ m * 2 ^ q := by
  rcases lt_or_ge q x.exponent with hlt | hge
  · exact Or.inl (le_sub_gapBelow_of_lt hx hm hmin hlt)
  · -- both are whole numbers of units of the lesser exponent
    obtain ⟨k, hk⟩ := exists_eq_mul_of_le hge m
    have hpos := two_zpow_pos x.exponent
    rw [hk, magnitude]
    rcases lt_trichotomy k x.significand with hless | heq | hmore
    · have hless : (k : ℚ) + 1 ≤ x.significand := by exact_mod_cast hless
      have hscaled := mul_le_mul_of_nonneg_right hless hpos.le
      have hgap := gapBelow_le x
      exact Or.inl (by linarith)
    · exact Or.inr (Or.inl (by rw [heq]))
    · have hmore : (x.significand : ℚ) + 1 ≤ k := by exact_mod_cast hmore
      have hscaled := mul_le_mul_of_nonneg_right hmore hpos.le
      exact Or.inr (Or.inr (by linarith))

/-! ## The interval of a number -/

/-- A ratio lies in the interval of a number, whose ends belong to it if they are said to. -/
def Covers (x : Binary64) (t : ℚ) : Prop :=
  let (lo, hi, closed) := Decimal.interval x
  let unit : ℚ := 2 ^ (x.exponent - 2)
  if closed then lo * unit ≤ t ∧ t ≤ hi * unit else lo * unit < t ∧ t < hi * unit

theorem quarter_unit (q : ℤ) : (2 : ℚ) ^ (q - 2) = 2 ^ q / 4 := by
  rw [zpow_sub₀ two_ne_zero]
  norm_num

/-- The upper end of the interval is half a unit away. -/
theorem interval_hi (x : Binary64) :
    ((Decimal.interval x).2.1 : ℚ) * 2 ^ (x.exponent - 2) = x.magnitude + 2 ^ x.exponent / 2 := by
  rw [quarter_unit, magnitude, Decimal.interval]
  push_cast
  ring

/-- The lower end of the interval is half the gap away, or it is zero. -/
theorem interval_lo (x : Binary64) :
    x.magnitude - x.gapBelow / 2 ≤ ((Decimal.interval x).1 : ℚ) * 2 ^ (x.exponent - 2) := by
  have hpos := two_zpow_pos x.exponent
  rw [quarter_unit, magnitude, gapBelow, Decimal.interval]
  have hpower : Nat.pow 2 (precision - 1) = 2 ^ 52 := rfl
  simp only [hpower, gt_iff_lt]
  have hsub (below : ℕ) :
      4 * (x.significand : ℚ) - below ≤ ((4 * x.significand - below : ℕ) : ℚ) := by
    have : 4 * x.significand ≤ (4 * x.significand - below) + below := by omega
    have : 4 * (x.significand : ℚ) ≤ ((4 * x.significand - below : ℕ) : ℚ) + below := by
      exact_mod_cast this
    linarith
  split
  · have hscaled := mul_le_mul_of_nonneg_right (hsub 1) hpos.le
    rw [two_zpow_sub_one]
    push_cast at hscaled ⊢
    linarith
  · have hscaled := mul_le_mul_of_nonneg_right (hsub 2) hpos.le
    push_cast at hscaled ⊢
    linarith

/-- A ratio in the interval is at most half a gap away, and less than that if the significand
is odd. -/
theorem Covers.near (h : x.Covers t) :
    x.magnitude - x.gapBelow / 2 ≤ t ∧ t ≤ x.magnitude + 2 ^ x.exponent / 2
      ∧ (Even x.significand
        ∨ (x.magnitude - x.gapBelow / 2 < t ∧ t < x.magnitude + 2 ^ x.exponent / 2)) := by
  have hlo := interval_lo x
  have hhi := interval_hi x
  have hclosed : (Decimal.interval x).2.2 = decide (x.significand % 2 = 0) := rfl
  rw [Covers] at h
  dsimp only at h
  split at h
  next hc =>
    have heven : Even x.significand := Nat.even_iff.mpr (by simpa [hclosed] using hc)
    exact ⟨hlo.trans h.1, h.2.trans_eq hhi, Or.inl heven⟩
  next =>
    have hbelow := hlo.trans_lt h.1
    have habove := h.2.trans_eq hhi
    exact ⟨hbelow.le, habove.le, Or.inr ⟨hbelow, habove⟩⟩

/-- The interval of a number that is not zero stays above zero, which is a whole unit away. -/
theorem Covers.pos (h : x.Covers t) (hx : 0 < x.significand) : 0 < t := by
  have hlo := h.near.1
  have hgap := gapBelow_le x
  have hunit := two_zpow_pos x.exponent
  have hone : (1 : ℚ) ≤ x.significand := by exact_mod_cast hx
  have hscaled := mul_le_mul_of_nonneg_right hone hunit.le
  rw [magnitude] at hlo
  linarith

/-- A ratio that is nearer than half of every gap lies in the interval. -/
theorem covers_of_near (hx : x.significand ≠ 0) (hlo : x.magnitude - x.gapBelow / 2 < t)
    (hhi : t < x.magnitude + 2 ^ x.exponent / 2) : x.Covers t := by
  have hlower : ((Decimal.interval x).1 : ℚ) * 2 ^ (x.exponent - 2)
      = x.magnitude - x.gapBelow / 2 := by
    rw [quarter_unit, magnitude, gapBelow, Decimal.interval]
    have hpower : Nat.pow 2 (precision - 1) = 2 ^ 52 := rfl
    simp only [hpower, gt_iff_lt]
    split
    · rw [two_zpow_sub_one, Nat.cast_sub (by omega)]
      push_cast
      ring
    · rw [Nat.cast_sub (by omega)]
      push_cast
      ring
  rw [← hlower] at hlo
  rw [← interval_hi] at hhi
  rw [Covers]
  dsimp only
  split
  · exact ⟨hlo.le, hhi.le⟩
  · exact ⟨hlo, hhi⟩

/-- A ratio within half a gap of a number is strictly nearer to it than to any other. -/
theorem abs_sub_lt_of_between (hx : x.IsFinite) (hlo : x.magnitude - x.gapBelow / 2 < t)
    (hhi : t < x.magnitude + 2 ^ x.exponent / 2) {m : ℕ} {q : ℤ} (hm : m < 2 ^ 53)
    (hmin : minExponent ≤ q) (hne : m * 2 ^ q ≠ x.magnitude) :
    |t - x.magnitude| < |t - m * 2 ^ q| := by
  have hgap := gapBelow_pos x
  have hgap_le := gapBelow_le x
  rcases le_sub_or_eq_or_add_le hx hm hmin with hbelow | heq | habove
  · refine lt_of_lt_of_le (abs_lt.mpr ⟨?_, ?_⟩) (le_abs_self _) <;> linarith
  · exact absurd heq hne
  · refine lt_of_lt_of_le (abs_lt.mpr ⟨?_, ?_⟩) (neg_le_abs _) <;> linarith

/-- What lies in the interval of a number rounds to it. -/
theorem roundsTo_of_covers (hx : x.IsFinite) (h : x.Covers t) : x.RoundsTo t := by
  obtain ⟨hlo, hhi, hends⟩ := h.near
  have hgap := gapBelow_pos x
  have hgap_le := gapBelow_le x
  refine ⟨hx, ?_, ?_⟩
  · -- any other number is at least the rest of the gap away
    intro m q hm hmin
    rcases le_sub_or_eq_or_add_le hx hm hmin with hbelow | heq | habove
    · refine le_trans (abs_le.mpr ⟨?_, ?_⟩) (le_abs_self _) <;> linarith
    · rw [heq]
    · refine le_trans (abs_le.mpr ⟨?_, ?_⟩) (neg_le_abs _) <;> linarith
  · -- only the ends of the interval are as near to another number
    intro m q hm hmin hne htie
    rcases hends with heven | ⟨hlo, hhi⟩
    · exact heven
    · exact absurd htie (abs_sub_lt_of_between hx hlo hhi hm hmin hne).ne

/-- A number rounds to itself. -/
theorem roundsTo_magnitude (hx : x.IsFinite) : x.RoundsTo x.magnitude := by
  refine ⟨hx, ?_, ?_⟩
  · intro m q _ _
    rw [sub_self, abs_zero]
    exact abs_nonneg _
  · intro m q _ _ hne htie
    rw [sub_self, abs_zero, eq_comm, abs_eq_zero, sub_eq_zero] at htie
    exact absurd htie.symm hne

end Binary64

end StageVars
