import StageVars.Proofs.Number.Rounding
/-!
# StageVars.Proofs.Number.Finite -- what rounding makes is finite

A ratio is measured in the unit that gives it 53 binary digits, so that what it is rounded to
is a finite number whenever it is a number at all. Products and quotients are rounded ratios.

* `unitOf_bounds`: how long a ratio is in its unit.
* `isFinite_ofRatio?`, `isFinite_ofDecimal?`, `isFinite_mul?`, `isFinite_div?`.
-/

namespace StageVars

namespace Binary64

variable {num den : ℕ}

/-- Measuring in units divides by the unit. -/
theorem scaled_ratio (num den : ℕ) (q : ℤ) :
    ((scaled num den q).1 : ℚ) / (scaled num den q).2 = num / den / 2 ^ q := by
  have hpow : ∀ k : ℕ, ((Nat.pow 2 k : ℕ) : ℚ) = 2 ^ k := fun k => by
    rw [Nat.pow_eq]
    push_cast
    rfl
  rw [scaled]
  split
  next hneg =>
    obtain ⟨k, rfl⟩ : ∃ k : ℕ, q = -k := ⟨(-q).toNat, by omega⟩
    simp only [neg_neg, Int.toNat_natCast, Nat.cast_mul, hpow, zpow_neg, zpow_natCast]
    rw [div_inv_eq_mul]
    ring
  next hnonneg =>
    obtain ⟨k, rfl⟩ : ∃ k : ℕ, q = k := ⟨q.toNat, by omega⟩
    simp only [Int.toNat_natCast, Nat.cast_mul, hpow, zpow_natCast]
    rw [div_mul_eq_div_div]

theorem scaled_den_pos (num : ℕ) (hden : 0 < den) (q : ℤ) : 0 < (scaled num den q).2 := by
  rw [scaled]
  split
  · exact hden
  · exact Nat.mul_pos hden (Nat.pow_pos two_pos)

/-- A unit below one is divided by through a multiplication. -/
theorem exists_scaled_of_neg (num den : ℕ) {q : ℤ} (hq : q < 0) :
    ∃ k, scaled num den q = (num * Nat.pow 2 k, den) := by
  rw [scaled, if_pos hq]
  exact ⟨_, rfl⟩

/-- A ratio is as long as its binary logarithms say, give or take one digit. -/
theorem ratio_log2 (hnum : 0 < num) (hden : 0 < den) :
    (2 : ℚ) ^ ((num.log2 : ℤ) - den.log2 - 1) < num / den
      ∧ (num / den : ℚ) < 2 ^ ((num.log2 : ℤ) - den.log2 + 1) := by
  have hden' : (0 : ℚ) < den := by exact_mod_cast hden
  have hnum_le : (2 : ℚ) ^ (num.log2 : ℤ) ≤ num := by
    rw [zpow_natCast]
    exact_mod_cast Nat.log2_self_le hnum.ne'
  have hnum_lt : (num : ℚ) < 2 ^ ((num.log2 : ℤ) + 1) := by
    exact_mod_cast (Nat.lt_log2_self : num < 2 ^ (num.log2 + 1))
  have hden_le : (2 : ℚ) ^ (den.log2 : ℤ) ≤ den := by
    rw [zpow_natCast]
    exact_mod_cast Nat.log2_self_le hden.ne'
  have hden_lt : (den : ℚ) < 2 ^ ((den.log2 : ℤ) + 1) := by
    exact_mod_cast (Nat.lt_log2_self : den < 2 ^ (den.log2 + 1))
  constructor
  · rw [lt_div_iff₀ hden']
    calc (2 : ℚ) ^ ((num.log2 : ℤ) - den.log2 - 1) * den
        < 2 ^ ((num.log2 : ℤ) - den.log2 - 1) * 2 ^ ((den.log2 : ℤ) + 1) :=
          mul_lt_mul_of_pos_left hden_lt (two_zpow_pos _)
      _ = 2 ^ (num.log2 : ℤ) := by rw [← zpow_add₀ two_ne_zero]; congr 1; ring
      _ ≤ num := hnum_le
  · rw [div_lt_iff₀ hden']
    calc (num : ℚ) < 2 ^ ((num.log2 : ℤ) + 1) := hnum_lt
      _ = 2 ^ ((num.log2 : ℤ) - den.log2 + 1) * 2 ^ (den.log2 : ℤ) := by
          rw [← zpow_add₀ two_ne_zero]; congr 1; ring
      _ ≤ 2 ^ ((num.log2 : ℤ) - den.log2 + 1) * den :=
          mul_le_mul_of_nonneg_left hden_le (two_zpow_pos _).le

theorem unitOf_eq {q : ℤ} (hq : q = (num.log2 : ℤ) - den.log2 - 52) :
    unitOf num den
      = max (if (scaled num den q).1 < (scaled num den q).2 * 2 ^ 52 then q - 1 else q)
          minExponent := by
  subst hq
  rfl

/-- A ratio in the unit that its logarithms suggest has 53 binary digits, or one fewer. -/
theorem ratio_suggested (hnum : 0 < num) (hden : 0 < den) {q : ℤ}
    (hq : q = (num.log2 : ℤ) - den.log2 - 52) :
    2 ^ 51 * 2 ^ q < (num / den : ℚ) ∧ (num / den : ℚ) < 2 ^ 53 * 2 ^ q := by
  obtain ⟨hlo, hhi⟩ := ratio_log2 hnum hden
  constructor
  · refine lt_of_eq_of_lt ?_ hlo
    rw [← zpow_natCast, ← zpow_add₀ two_ne_zero]
    congr 1
    push_cast
    omega
  · refine lt_of_lt_of_eq hhi ?_
    rw [← zpow_natCast, ← zpow_add₀ two_ne_zero]
    congr 1
    push_cast
    omega

/-- Whether a digit is missing is decided in natural numbers. -/
theorem scaled_short_iff (num : ℕ) (hden : 0 < den) (q : ℤ) :
    (scaled num den q).1 < (scaled num den q).2 * 2 ^ 52
      ↔ (num / den : ℚ) < 2 ^ 52 * 2 ^ q := by
  have hd : (0 : ℚ) < (scaled num den q).2 := by exact_mod_cast scaled_den_pos num hden q
  rw [← Nat.cast_lt (α := ℚ), ← div_lt_iff₀ (two_zpow_pos q), ← scaled_ratio, div_lt_iff₀ hd,
    mul_comm]
  push_cast
  rfl

/-- Some unit gives a ratio 53 binary digits, and it is the one that is taken unless it is
too small. -/
theorem exists_unitOf_eq_max (hnum : 0 < num) (hden : 0 < den) :
    ∃ p, unitOf num den = max p minExponent
      ∧ (num / den : ℚ) < 2 ^ 53 * 2 ^ p ∧ (2 : ℚ) ^ 52 * 2 ^ p ≤ num / den := by
  obtain ⟨q, hq⟩ : ∃ q, q = (num.log2 : ℤ) - den.log2 - 52 := ⟨_, rfl⟩
  obtain ⟨hlo, hhi⟩ := ratio_suggested hnum hden hq
  by_cases h : (num / den : ℚ) < 2 ^ 52 * 2 ^ q
  · -- the next unit below makes up for the missing digit
    have hhalf : (2 : ℚ) ^ (q - 1) = 2 ^ q / 2 := two_zpow_sub_one q
    refine ⟨q - 1, ?_, by linarith, by linarith⟩
    rw [unitOf_eq hq, if_pos ((scaled_short_iff num hden q).mpr h)]
  · refine ⟨q, ?_, hhi, not_lt.mp h⟩
    rw [unitOf_eq hq, if_neg (mt (scaled_short_iff num hden q).mp h)]

/-- The unit of a ratio gives it 53 binary digits, or fewer if it is the least unit. -/
theorem unitOf_bounds (hnum : 0 < num) (hden : 0 < den) :
    minExponent ≤ unitOf num den
      ∧ (num / den : ℚ) < 2 ^ 53 * 2 ^ unitOf num den
      ∧ (unitOf num den = minExponent ∨ (2 : ℚ) ^ 52 * 2 ^ unitOf num den ≤ num / den) := by
  obtain ⟨p, hp, hunder, hover⟩ := exists_unitOf_eq_max hnum hden
  rw [hp]
  refine ⟨le_max_right _ _, ?_, ?_⟩
  · refine hunder.trans_le (mul_le_mul_of_nonneg_left ?_ (by norm_num))
    exact zpow_le_zpow_right₀ one_le_two (le_max_left _ _)
  · rcases le_total p minExponent with hle | hge
    · exact Or.inl (max_eq_right hle)
    · rw [max_eq_left hge]
      exact Or.inr hover

theorem roundHalfEven_bounds (num den : ℕ) :
    num / den ≤ roundHalfEven num den ∧ roundHalfEven num den ≤ num / den + 1 := by
  simp only [roundHalfEven]
  split_ifs <;> omega

/-- In its unit a ratio has at most 53 binary digits, and it has 53 beyond the least unit. -/
theorem floor_unitOf (hnum : 0 < num) (hden : 0 < den) {n d : ℕ}
    (h : scaled num den (unitOf num den) = (n, d)) :
    n / d < 2 ^ 53 ∧ (unitOf num den = minExponent ∨ 2 ^ 52 ≤ n / d) := by
  obtain ⟨-, hhi, hlo⟩ := unitOf_bounds hnum hden
  have hd : 0 < d := by simpa [h] using scaled_den_pos num hden (unitOf num den)
  have hd' : (0 : ℚ) < d := by exact_mod_cast hd
  have hratio : (n : ℚ) / d = num / den / 2 ^ unitOf num den := by
    simpa [h] using scaled_ratio num den (unitOf num den)
  rw [← div_lt_iff₀ (two_zpow_pos _), ← hratio, div_lt_iff₀ hd'] at hhi
  rw [← le_div_iff₀ (two_zpow_pos _), ← hratio, le_div_iff₀ hd'] at hlo
  rw [Nat.div_lt_iff_lt_mul hd, Nat.le_div_iff_mul_le hd]
  exact ⟨by exact_mod_cast hhi, by exact_mod_cast hlo⟩

/-- A significand of one digit too many, which is a power of two, gives way to the next unit. -/
def carried (m : ℕ) (q : ℤ) : ℕ × ℤ := if m = Nat.pow 2 precision then (m / 2, q + 1) else (m, q)

theorem ofRatio?_eq (hnum : num ≠ 0) {n d : ℕ} {q : ℤ} (hq : unitOf num den = q)
    (hs : scaled num den q = (n, d)) :
    ofRatio? num den
      = if (carried (roundHalfEven n d) q).2 > maxExponent then none
        else some
          ⟨false, (carried (roundHalfEven n d) q).1, (carried (roundHalfEven n d) q).2⟩ := by
  rw [ofRatio?, if_neg hnum, hq]
  dsimp only
  rw [hs]
  dsimp only
  rw [← carried]

theorem carried_spec {m : ℕ} {q : ℤ} (hm : m ≤ 2 ^ 53) (h : q = minExponent ∨ 2 ^ 52 ≤ m) :
    (carried m q).1 < 2 ^ 53 ∧ q ≤ (carried m q).2
      ∧ ((carried m q).2 = minExponent ∨ 2 ^ 52 ≤ (carried m q).1) := by
  have hpow : Nat.pow 2 precision = 2 ^ 53 := rfl
  rw [carried, hpow]
  split
  next heq =>
    rw [heq]
    exact ⟨by norm_num, by omega, Or.inr (by norm_num)⟩
  next hne => exact ⟨by omega, le_rfl, h⟩

theorem carried_pos {m : ℕ} (hm : 0 < m) (q : ℤ) : 0 < (carried m q).1 := by
  have hhalf : 0 < Nat.pow 2 precision / 2 := by decide
  rw [carried]
  split
  next heq => rwa [heq]
  next => exact hm

theorem isFinite_zero : zero.IsFinite := ⟨by decide, le_rfl, by decide, Or.inl rfl⟩

/-- What a ratio is rounded to is a finite number. -/
theorem isFinite_ofRatio? (hden : 0 < den) {x : Binary64} (h : ofRatio? num den = some x) :
    x.IsFinite := by
  by_cases hnum : num = 0
  · rw [ofRatio?, if_pos hnum] at h
    cases h
    exact isFinite_zero
  · obtain ⟨hmin, -, -⟩ := unitOf_bounds (Nat.pos_of_ne_zero hnum) hden
    obtain ⟨⟨n, d⟩, hs⟩ : ∃ s, scaled num den (unitOf num den) = s := ⟨_, rfl⟩
    obtain ⟨hlt, hnormal⟩ := floor_unitOf (Nat.pos_of_ne_zero hnum) hden hs
    obtain ⟨hfloor, hceil⟩ := roundHalfEven_bounds n d
    -- rounding up can add a digit, which is carried into the exponent
    obtain ⟨hsignificand, hunit, hcarried⟩ := carried_spec (q := unitOf num den)
      (hceil.trans hlt) (hnormal.imp_right fun h => h.trans hfloor)
    rw [ofRatio?_eq hnum rfl hs] at h
    split at h
    · cases h
    next hmax =>
      cases h
      exact ⟨hsignificand, hmin.trans hunit, not_lt.mp hmax, hcarried⟩

/-- A ratio that is one or more is not rounded to zero. -/
theorem significand_ofRatio?_pos (hden : 0 < den) (hle : den ≤ num) {x : Binary64}
    (h : ofRatio? num den = some x) : 0 < x.significand := by
  have hnum : 0 < num := hden.trans_le hle
  obtain ⟨⟨n, d⟩, hs⟩ : ∃ s, scaled num den (unitOf num den) = s := ⟨_, rfl⟩
  obtain ⟨-, hnormal⟩ := floor_unitOf hnum hden hs
  obtain ⟨hfloor, -⟩ := roundHalfEven_bounds n d
  have hone : 1 ≤ n / d := by
    rcases hnormal with hleast | hlong
    · -- the least unit divides one
      have hd : 0 < d := by simpa [hs] using scaled_den_pos num hden (unitOf num den)
      obtain ⟨k, hk⟩ := exists_scaled_of_neg num den (q := minExponent) (by decide)
      rw [hleast, hk] at hs
      obtain ⟨rfl, rfl⟩ := Prod.mk.inj hs
      rw [Nat.le_div_iff_mul_le hd, one_mul]
      exact hle.trans (Nat.le_mul_of_pos_right _ (Nat.pow_pos two_pos))
    · exact le_trans (by norm_num) hlong
  have hcarried := carried_pos (hone.trans hfloor) (unitOf num den)
  rw [ofRatio?_eq hnum.ne' rfl hs] at h
  split at h
  · cases h
  · cases h
    exact hcarried

theorem isFinite_ofDecimal? {n : ℕ} {e : ℤ} {x : Binary64} (h : ofDecimal? n e = some x) :
    x.IsFinite := by
  simp only [ofDecimal?] at h
  split_ifs at h
  · cases h
    exact isFinite_zero
  · cases h
    exact isFinite_zero
  · exact isFinite_ofRatio? (Nat.pow_pos (by norm_num)) h
  · exact isFinite_ofRatio? one_pos h

/-- A power of ten that is no fraction is not rounded to zero. -/
theorem significand_ofDecimal?_pos {e : ℤ} (he : 0 ≤ e) {x : Binary64}
    (h : ofDecimal? 1 e = some x) : 0 < x.significand := by
  have htop : ¬ ((decimalLength 1 : ℤ) + e ≤ -324) := by omega
  simp only [ofDecimal?, if_neg one_ne_zero, if_neg htop, if_neg he.not_gt] at h
  split at h
  · cases h
  · exact significand_ofRatio?_pos one_pos (by simp [Nat.one_le_iff_ne_zero]) h

theorem isFinite_mul? {x y z : Binary64} (h : x.mul? y = some z) : z.IsFinite :=
  isFinite_ofRatio? (Nat.mul_pos (ratio_den_pos x) (ratio_den_pos y)) h

theorem isFinite_div? {x y z : Binary64} (hy : 0 < y.significand) (h : x.div? y = some z) :
    z.IsFinite :=
  isFinite_ofRatio? (Nat.mul_pos (ratio_den_pos x) (ratio_num_pos hy)) h

theorem IsFinite.withSign {x : Binary64} (h : x.IsFinite) (negative : Bool) :
    (x.withSign negative).IsFinite :=
  ⟨h.significand_lt, h.minExponent_le, h.le_maxExponent, h.normal⟩

end Binary64

end StageVars
