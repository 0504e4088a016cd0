/-!
# StageVars.Number.Binary64 -- finite 64-bit floating-point numbers

A finite binary64 number is a sign, a significand below `2 ^ 53` and a power of
two. Numbers are built only by rounding an exact ratio of naturals, so every
operation here is exact arithmetic followed by **one** rounding: to the nearest
representable number, an exact half going to the even significand. A ratio that
rounds past the largest finite number has no value (`none`).
-/

namespace StageVars

/-- The finite number `± significand * 2 ^ exponent`. Zero keeps its sign. -/
structure Binary64 where
  negative : Bool
  significand : Nat
  exponent : Int
deriving DecidableEq, Repr, Inhabited

namespace Binary64

/-- The least exponent of a binary64 number; subnormal numbers have it. -/
def minExponent : Int := -1074

/-- The greatest exponent of a finite binary64 number. -/
def maxExponent : Int := 971

/-- Significands have at most this many binary digits. -/
def precision : Nat := 53

/-- Zero without a sign. -/
def zero : Binary64 := ⟨false, 0, minExponent⟩

/-- The same magnitude with the given sign. -/
def withSign (negative : Bool) (x : Binary64) : Binary64 := { x with negative }

/-- A number is zero when its significand is, whatever its sign. -/
def isZero (x : Binary64) : Bool := x.significand == 0

/-! ## Rounding a ratio -/

/-- `num / den` to the nearest natural, a half to the even one. -/
def roundHalfEven (num den : Nat) : Nat :=
  let q := num / den
  let r := num % den
  if 2 * r < den then q
  else if 2 * r > den then q + 1
  else if q % 2 = 0 then q else q + 1

/-- `num / den` measured in units of `2 ^ q`, as a ratio again. -/
def scaled (num den : Nat) (q : Int) : Nat × Nat :=
  if q < 0 then (num * Nat.pow 2 (-q).toNat, den) else (num, den * Nat.pow 2 q.toNat)

/-- The exponent that gives `num / den` exactly `precision` binary digits, or the
least exponent where that would fall below it. -/
def unitOf (num den : Nat) : Int :=
  let q : Int := (num.log2 : Int) - den.log2 - (precision - 1 : Nat)
  let (n, d) := scaled num den q
  let q := if n < d * Nat.pow 2 (precision - 1) then q - 1 else q
  max q minExponent

/-- The magnitude nearest to `num / den`, or `none` where that is not finite. -/
def ofRatio? (num den : Nat) : Option Binary64 :=
  if num = 0 then some zero
  else
    let q := unitOf num den
    let (n, d) := scaled num den q
    let m := roundHalfEven n d
    let (m, q) := if m = Nat.pow 2 precision then (m / 2, q + 1) else (m, q)
    if q > maxExponent then none else some ⟨false, m, q⟩

/-- The magnitude nearest to a natural. -/
def ofNat? (n : Nat) : Option Binary64 := ofRatio? n 1

/-- How many decimal digits a natural is written with. -/
def decimalLength (n : Nat) : Nat := (Nat.toDigits 10 n).length

/-- The magnitude nearest to `n * 10 ^ e`. Magnitudes from `10 ^ 309` on are not
finite and those below `10 ^ -324` round to zero, so the power of ten is built only
between these bounds. -/
def ofDecimal? (n : Nat) (e : Int) : Option Binary64 :=
  let top : Int := (decimalLength n : Int) + e
  if n = 0 then some zero
  else if top > 309 then none
  else if top ≤ -324 then some zero
  else if e < 0 then ofRatio? n (Nat.pow 10 (-e).toNat)
  else ofRatio? (n * Nat.pow 10 e.toNat) 1

/-! ## Arithmetic on magnitudes -/

/-- The exact magnitude as a ratio of naturals. -/
def ratio (x : Binary64) : Nat × Nat :=
  if x.exponent < 0 then (x.significand, Nat.pow 2 (-x.exponent).toNat)
  else (x.significand * Nat.pow 2 x.exponent.toNat, 1)

/-- The rounded product of two magnitudes. -/
def mul? (x y : Binary64) : Option Binary64 :=
  let (a, b) := x.ratio
  let (c, d) := y.ratio
  ofRatio? (a * c) (b * d)

/-- The rounded quotient of two magnitudes. -/
def div? (x y : Binary64) : Option Binary64 :=
  let (a, b) := x.ratio
  let (c, d) := y.ratio
  ofRatio? (a * d) (b * c)

end Binary64

end StageVars
