import StageVars.Proofs.Number.Rounding
/-!
# StageVars.Proofs.Number.Shortest -- the shortest decimal rounds back

The search for a decimal looks at grids of one digit more each time and takes the first that
has a point in the interval of the number. What it finds lies in the interval, so that it rounds
to the number; and it finds something, because the points of a grid of seventeen digits are
closer to each other than numbers of 53 binary digits are.

* `covers_of_onGrid?`: what is found on a grid lies in the interval.
* `isSome_onGrid?`: seventeen digits are enough.
* `covers_shortest`: the shortest decimal of a number lies in its interval.
-/

namespace StageVars

namespace Decimal

open Binary64

variable {x : Binary64}

/-! ## Grids -/

/-- A power with an integer exponent as a ratio. -/
theorem ratio_zpow {b : ℕ} (hb : 0 < b) {e : ℤ} {r : ℕ × ℕ}
    (h : (if e < 0 then (1, Nat.pow b (-e).toNat) else (Nat.pow b e.toNat, 1)) = r) :
    0 < r.1 ∧ 0 < r.2 ∧ (r.1 : ℚ) / r.2 = (b : ℚ) ^ e := by
  subst h
  split
  next hneg =>
    obtain ⟨k, rfl⟩ : ∃ k : ℕ, e = -k := ⟨(-e).toNat, by omega⟩
    refine ⟨one_pos, Nat.pow_pos hb, ?_⟩
    simp [zpow_neg]
  next hnonneg =>
    obtain ⟨k, rfl⟩ : ∃ k : ℕ, e = k := ⟨e.toNat, by omega⟩
    refine ⟨Nat.pow_pos hb, one_pos, ?_⟩
    simp

/-- A quarter of the unit of a number in steps of a grid: how many, as a ratio. -/
theorem grid_ratio {a b c d : ℕ} {unit : ℤ} (hab : quarterUnit x = (a, b))
    (hcd : powerOfTen unit = (c, d)) :
    0 < a * d ∧ 0 < b * c
      ∧ ∀ n p : ℕ, (n * (a * d) ≤ p * (b * c) ↔ (n : ℚ) * 2 ^ (x.exponent - 2) ≤ p * 10 ^ unit)
        ∧ (p * (b * c) ≤ n * (a * d) ↔ (p : ℚ) * 10 ^ unit ≤ n * 2 ^ (x.exponent - 2)) := by
  obtain ⟨ha, hb, hquarter⟩ := ratio_zpow two_pos hab
  obtain ⟨hc, hd, hten⟩ := ratio_zpow (by norm_num : 0 < 10) hcd
  refine ⟨Nat.mul_pos ha hd, Nat.mul_pos hb hc, ?_⟩
  intro n p
  have hb' : (0 : ℚ) < b := by exact_mod_cast hb
  have hd' : (0 : ℚ) < d := by exact_mod_cast hd
  have hn : (n : ℚ) * 2 ^ (x.exponent - 2) = (n * a : ℚ) / b := by
    rw [← Nat.cast_two, ← hquarter]
    ring
  have hp : (p : ℚ) * 10 ^ unit = (p * c : ℚ) / d := by
    rw [← Nat.cast_ofNat, ← hten]
    ring
  rw [hn, hp, div_le_div_iff₀ hb' hd', div_le_div_iff₀ hd' hb']
  constructor
  · rw [← Nat.cast_le (α := ℚ)]
    push_cast
    constructor <;> intro h <;> linarith
  · rw [← Nat.cast_le (α := ℚ)]
    push_cast
    constructor <;> intro h <;> linarith

/-- Whether a point of a grid lies in the interval is decided in natural numbers. -/
theorem covers_grid_iff {a b c d lo hi : ℕ} {closed : Bool} {unit : ℤ}
    (hab : quarterUnit x = (a, b)) (hcd : powerOfTen unit = (c, d))
    (hends : interval x = (lo, hi, closed)) (p : ℕ) :
    x.Covers (p * 10 ^ unit)
      ↔ (if closed then decide (lo * (a * d) ≤ p * (b * c)) && decide (p * (b * c) ≤ hi * (a * d))
        else decide (lo * (a * d) < p * (b * c)) && decide (p * (b * c) < hi * (a * d)))
          = true := by
  obtain ⟨-, -, hcompare⟩ := grid_ratio hab hcd
  rw [Covers, hends]
  cases closed <;> simp [← not_le, (hcompare _ _).1, (hcompare _ _).2]

/-- The points of a grid next to a number are looked at in whole steps of the grid. -/
theorem onGrid?_cases (x : Binary64) (unit : ℤ) :
    ∃ down : ℕ, (down : ℚ) * 10 ^ unit ≤ x.magnitude
      ∧ x.magnitude < (down + 1 : ℕ) * 10 ^ unit
      ∧ match onGrid? x unit with
        | some p => x.Covers (p * 10 ^ unit)
        | none => ¬ x.Covers (down * 10 ^ unit) ∧ ¬ x.Covers ((down + 1 : ℕ) * 10 ^ unit) := by
  obtain ⟨⟨a, b⟩, hab⟩ : ∃ r, quarterUnit x = r := ⟨_, rfl⟩
  obtain ⟨⟨c, d⟩, hcd⟩ : ∃ r, powerOfTen unit = r := ⟨_, rfl⟩
  obtain ⟨⟨lo, hi, closed⟩, hends⟩ : ∃ r, interval x = r := ⟨_, rfl⟩
  obtain ⟨-, hper, hcompare⟩ := grid_ratio hab hcd
  have hvalue : ((4 * x.significand : ℕ) : ℚ) * 2 ^ (x.exponent - 2) = x.magnitude := by
    rw [quarter_unit, magnitude]
    push_cast
    ring
  refine ⟨4 * x.significand * (a * d) / (b * c), ?_, ?_, ?_⟩
  · rw [← hvalue, ← (hcompare _ _).2]
    exact Nat.div_mul_le_self _ _
  · rw [← hvalue, ← not_le, ← (hcompare _ _).2, not_le, mul_comm (_ + 1)]
    exact Nat.lt_mul_div_succ _ hper
  · simp only [onGrid?, hab, hcd, hends]
    simp only [covers_grid_iff hab hcd hends]
    generalize 4 * x.significand * (a * d) / (b * c) = down
    split
    next hp =>
      split at hp
      next => cases hp
      next hdown hup =>
        cases hp
        exact hdown
      next hdown hup =>
        cases hp
        exact hup
      next hdown hup =>
        split_ifs at hp
        all_goals cases hp
        all_goals assumption
    next hp =>
      split at hp
      next hdown hup => exact ⟨by simp [hdown], by simp [hup]⟩
      next => cases hp
      next => cases hp
      next => split_ifs at hp

/-- What is found on a grid lies in the interval. -/
theorem covers_of_onGrid? {unit : ℤ} {p : ℕ} (h : onGrid? x unit = some p) :
    x.Covers (p * 10 ^ unit) := by
  obtain ⟨_, -, -, hcases⟩ := onGrid?_cases x unit
  rwa [h] at hcases

/-- The gap below a number is more than the number divided by `10 ^ 16`. -/
theorem step_lt_gapBelow (hlt : x.significand < 2 ^ 53) {step : ℚ}
    (hstep : step * 10 ^ 16 ≤ x.magnitude) : step < x.gapBelow := by
  have hunit := two_zpow_pos x.exponent
  rw [magnitude] at hstep
  rw [gapBelow]
  split
  next hpower =>
    rw [hpower.1] at hstep
    push_cast at hstep
    rw [two_zpow_sub_one]
    linarith
  next =>
    have hlt : (x.significand : ℚ) ≤ 2 ^ 53 := by exact_mod_cast hlt.le
    have hscaled := mul_le_mul_of_nonneg_right hlt hunit.le
    linarith

/-- A grid whose steps are no more than the number divided by `10 ^ 16` has a point in the
interval. -/
theorem isSome_onGrid? (hlt : x.significand < 2 ^ 53) (hpos : 0 < x.significand) {unit : ℤ}
    (hunit : 10 ^ unit * 10 ^ 16 ≤ x.magnitude) : (onGrid? x unit).isSome := by
  obtain ⟨down, hdown, hup, hcases⟩ := onGrid?_cases x unit
  cases hgrid : onGrid? x unit with
  | some p => rfl
  | none =>
    rw [hgrid] at hcases
    obtain ⟨hno_down, hno_up⟩ := hcases
    -- half of a step is less than half of the gap
    have hstep := step_lt_gapBelow hlt hunit
    have hgap := gapBelow_le x
    push_cast at hup hno_up
    exfalso
    -- one of the two points around the number is at most half a step away
    rcases le_or_gt (x.magnitude - down * 10 ^ unit) (10 ^ unit / 2) with hnear | hfar
    · refine hno_down (covers_of_near hpos.ne' ?_ ?_) <;> linarith
    · refine hno_up (covers_of_near hpos.ne' ?_ ?_) <;> linarith

/-! ## The search -/

/-- What is found was found on a grid. -/
theorem onGrid?_of_search {k unit : ℤ} {fuel count p : ℕ}
    (h : search x k fuel count = some (p, unit)) : onGrid? x unit = some p := by
  induction fuel generalizing count with
  | zero => cases h
  | succ fuel ih =>
    rw [search] at h
    split at h
    next p hp =>
      cases h
      exact hp
    next => exact ih h

/-- The search finds something if the last grid that it looks at has a hit. -/
theorem isSome_search {k : ℤ} {fuel count : ℕ}
    (h : (onGrid? x (k - (count + fuel : ℕ) + 1)).isSome) :
    (search x k (fuel + 1) count).isSome := by
  induction fuel generalizing count with
  | zero =>
    rw [search]
    split
    · rfl
    next hnone =>
      rw [Nat.add_zero, hnone] at h
      cases h
  | succ fuel ih =>
    rw [search]
    split
    · rfl
    · refine ih ?_
      rwa [Nat.add_right_comm, Nat.add_assoc count fuel 1]

/-! ## Decimal digits -/

theorem decimalLength_pos (n : ℕ) : 0 < decimalLength n := Nat.length_toDigits_pos

theorem lt_ten_pow_decimalLength (n : ℕ) : n < 10 ^ decimalLength n :=
  (Nat.length_toDigits_le_iff (by norm_num) (decimalLength_pos n)).mp le_rfl

theorem ten_pow_decimalLength_le {n : ℕ} (hn : 0 < n) : 10 ^ (decimalLength n - 1) ≤ n := by
  rcases Nat.eq_zero_or_pos (decimalLength n - 1) with hone | hmore
  · rw [hone]
    exact hn
  · by_contra hlt
    have hle := (Nat.length_toDigits_le_iff (by norm_num) hmore).mpr (not_le.mp hlt)
    have hpos := decimalLength_pos n
    rw [← decimalLength] at hle
    omega

/-- The exponent of a ratio is not too great. -/
theorem ten_zpow_exponentOf_le {num den : ℕ} (hnum : 0 < num) (hden : 0 < den) :
    (10 : ℚ) ^ exponentOf num den ≤ num / den := by
  have hnum' : (0 : ℚ) < num := by exact_mod_cast hnum
  have hden' : (0 : ℚ) < den := by exact_mod_cast hden
  rw [exponentOf]
  split
  next hle =>
    have hquot : 0 < num / den := Nat.div_pos hle hden
    have hpos := decimalLength_pos (num / den)
    have hpow := ten_pow_decimalLength_le hquot
    obtain ⟨k, hk⟩ : ∃ k, decimalLength (num / den) = k + 1 :=
      ⟨_, (Nat.succ_pred_eq_of_pos hpos).symm⟩
    rw [hk, Nat.add_sub_cancel, Nat.le_div_iff_mul_le hden] at hpow
    rw [hk, le_div_iff₀ hden']
    push_cast
    rw [add_sub_cancel_right, zpow_natCast]
    exact_mod_cast hpow
  next hlt =>
    have hlt_pow := lt_ten_pow_decimalLength ((den + num - 1) / num - 1)
    have hceil : den ≤ (den + num - 1) / num * num := by
      have := Nat.lt_div_mul_add hnum (a := den + num - 1)
      omega
    rw [zpow_neg, zpow_natCast, le_div_iff₀ hden', inv_mul_le_iff₀ (by positivity)]
    have hle : den ≤ 10 ^ decimalLength ((den + num - 1) / num - 1) * num :=
      hceil.trans (Nat.mul_le_mul_right num (by omega))
    exact_mod_cast hle

theorem decimalLength_mul_ten {n : ℕ} (hn : 0 < n) :
    decimalLength (n * 10) = decimalLength n + 1 := by
  rw [decimalLength, Nat.toDigits_of_base_le (by norm_num) (by omega), List.length_append,
    Nat.mul_div_cancel _ (by norm_num)]
  rfl

/-- Zeros that are dropped are counted by the length. -/
theorem stripZeros_spec (fuel : ℕ) {n : ℕ} (hn : 0 < n) :
    ∃ zeros, n = stripZeros fuel n * 10 ^ zeros
      ∧ decimalLength n = decimalLength (stripZeros fuel n) + zeros := by
  induction fuel generalizing n with
  | zero => exact ⟨0, (mul_one _).symm, rfl⟩
  | succ fuel ih =>
    rw [stripZeros]
    split
    next hten =>
      have hn' : 0 < n / 10 := by omega
      have hback : n / 10 * 10 = n := by omega
      obtain ⟨zeros, hzeros, hlength⟩ := ih hn'
      refine ⟨zeros + 1, ?_, ?_⟩
      · rw [pow_succ, ← mul_assoc, ← hzeros, hback]
      · rw [← add_assoc, ← hlength, ← decimalLength_mul_ten hn', hback]
    next => exact ⟨0, (mul_one _).symm, rfl⟩

/-! ## The shortest decimal -/

/-- The magnitude of a decimal, whose digits stand behind a point after the first of them. -/
def magnitude (d : Decimal) : ℚ := d.digits * 10 ^ (d.exponent + 1 - decimalLength d.digits)

/-- **The shortest decimal of a number rounds back to it**: it lies in the interval of the
number. Its digits do not write zero. -/
theorem covers_shortest (hlt : x.significand < 2 ^ 53) (hpos : 0 < x.significand) :
    0 < (shortest x).digits ∧ x.Covers (shortest x).magnitude := by
  have hk := ten_zpow_exponentOf_le (ratio_num_pos hpos) (ratio_den_pos x)
  rw [← magnitude_eq_ratio] at hk
  generalize hexponent : exponentOf x.ratio.1 x.ratio.2 = k at hk
  have hstep : (10 : ℚ) ^ (k - (1 + 16 : ℕ) + 1) * 10 ^ 16 ≤ x.magnitude := by
    refine le_of_eq_of_le ?_ hk
    rw [← zpow_natCast, ← zpow_add₀ (by norm_num)]
    congr 1
    push_cast
    ring
  -- the seventeenth grid is fine enough
  have hfound : (search x k 17 1).isSome := isSome_search (isSome_onGrid? hlt hpos hstep)
  obtain ⟨⟨p, unit⟩, hsearch⟩ := Option.isSome_iff_exists.mp hfound
  have hcovers : x.Covers (p * 10 ^ unit) := covers_of_onGrid? (onGrid?_of_search hsearch)
  have hp : 0 < p := by
    exact_mod_cast pos_of_mul_pos_left (hcovers.pos hpos) (zpow_pos (by norm_num) unit).le
  obtain ⟨zeros, hstrip, hlength⟩ := stripZeros_spec 20 hp
  have hshortest : shortest x = ⟨stripZeros 20 p, unit + decimalLength p - 1⟩ := by
    have hnonzero : x.isZero = false := beq_eq_false_iff_ne.mpr hpos.ne'
    rw [shortest, hnonzero]
    simp only [hexponent, hsearch]
    rfl
  have hmagnitude : (shortest x).magnitude = p * 10 ^ unit := by
    have hexponent : unit + (decimalLength p : ℤ) - 1 + 1 - decimalLength (stripZeros 20 p)
        = unit + zeros := by
      rw [hlength]
      push_cast
      ring
    have hcast : (p : ℚ) = stripZeros 20 p * 10 ^ zeros := by exact_mod_cast hstrip
    rw [hshortest, Decimal.magnitude, hexponent, hcast, zpow_add₀ (by norm_num), zpow_natCast]
    ring
  refine ⟨?_, ?_⟩
  · rw [hshortest]
    rw [hstrip] at hp
    exact Nat.pos_of_mul_pos_right hp
  · rwa [hmagnitude]

/-- The shortest decimal of a number rounds to it, and that of zero is zero. -/
theorem roundsTo_shortest (hx : x.IsFinite) :
    ((shortest x).digits = 0 → (shortest x).exponent = 0)
      ∧ x.RoundsTo (shortest x).magnitude := by
  rcases Nat.eq_zero_or_pos x.significand with hzero | hpos
  · have hshortest : shortest x = ⟨0, 0⟩ := by
      have hiszero : x.isZero = true := beq_iff_eq.mpr hzero
      rw [shortest, hiszero]
      rfl
    have hmagnitude : (shortest x).magnitude = x.magnitude := by
      rw [hshortest, Decimal.magnitude, Binary64.magnitude, hzero]
      simp
    rw [hmagnitude, hshortest]
    exact ⟨fun _ => rfl, roundsTo_magnitude hx⟩
  · obtain ⟨hdigits, hcovers⟩ := covers_shortest hx.significand_lt hpos
    exact ⟨fun h => absurd h hdigits.ne', roundsTo_of_covers hx hcovers⟩

end Decimal

end StageVars
