import StageVars.Number.Binary64
/-!
# StageVars.Number.Shortest -- the fewest decimal digits that read back

A binary64 magnitude is the nearest one to every real of an interval around it; the
ends of the interval belong to it when the significand is even. Its shortest decimal
is found on the coarsest decimal grid with a point in that interval: of the grid's
two neighbours of the exact value the nearer one, an exact tie going to the even
digit. Seventeen digits always suffice.
-/

namespace StageVars

/-- The magnitude `d.ddd... * 10 ^ exponent`, its digits read as one natural without
trailing zeros. -/
structure Decimal where
  digits : Nat
  exponent : Int
deriving DecidableEq, Repr, Inhabited

namespace Decimal

/-- The exponent `k` with `10 ^ k ≤ num / den < 10 ^ (k + 1)`, for a positive ratio. -/
def exponentOf (num den : Nat) : Int :=
  if num ≥ den then (Binary64.decimalLength (num / den) : Int) - 1
  else -(Binary64.decimalLength ((den + num - 1) / num - 1) : Int)

/-- Drop trailing zeros from a natural of at most `fuel` digits. -/
def stripZeros : Nat → Nat → Nat
  | 0, n => n
  | fuel + 1, n => if n % 10 = 0 then stripZeros fuel (n / 10) else n

/-- The reals that round to `x`, in units of a quarter of `2 ^ x.exponent`: the least,
the greatest, and whether these two belong to them. Below a power of two the next
number is only half as far. -/
def interval (x : Binary64) : Nat × Nat × Bool :=
  let m := x.significand
  let isPower := m = Nat.pow 2 (Binary64.precision - 1)
  let below := if isPower ∧ x.exponent > Binary64.minExponent then 1 else 2
  (4 * m - below, 4 * m + 2, m % 2 = 0)

/-- A quarter of `2 ^ x.exponent` as a ratio of naturals. -/
def quarterUnit (x : Binary64) : Nat × Nat :=
  let q := x.exponent - 2
  if q < 0 then (1, Nat.pow 2 (-q).toNat) else (Nat.pow 2 q.toNat, 1)

/-- The ratio `10 ^ e`. -/
def powerOfTen (e : Int) : Nat × Nat :=
  if e < 0 then (1, Nat.pow 10 (-e).toNat) else (Nat.pow 10 e.toNat, 1)

/-- The point of the grid of multiples of `10 ^ unit` that stands for `x`, if one of
the two neighbours of `x` on that grid rounds to `x`. -/
def onGrid? (x : Binary64) (unit : Int) : Option Nat :=
  let (lo, hi, closed) := interval x
  let (a, b) := quarterUnit x
  let (c, d) := powerOfTen unit
  -- a quarter of the binary unit is `scale / per` grid steps
  let scale := a * d
  let per := b * c
  let value := 4 * x.significand * scale
  let inside (p : Nat) : Bool :=
    let p := p * per
    if closed then lo * scale ≤ p && p ≤ hi * scale else lo * scale < p && p < hi * scale
  let down := value / per
  let up := down + 1
  let toDown := value - down * per
  let toUp := up * per - value
  match inside down, inside up with
  | false, false => none
  | true, false => some down
  | false, true => some up
  | true, true =>
    if toDown < toUp then some down
    else if toUp < toDown then some up
    else if down % 2 = 0 then some down else some up

/-- The first hit among the grids of `count`, `count + 1`, ... digits. -/
def search (x : Binary64) (k : Int) : Nat → Nat → Option (Nat × Int)
  | 0, _ => none
  | fuel + 1, count =>
    let unit := k - count + 1
    match onGrid? x unit with
    | some p => some (p, unit)
    | none => search x k fuel (count + 1)

/-- The shortest decimal of a magnitude; of zero, the digit zero. -/
def shortest (x : Binary64) : Decimal :=
  if x.isZero then ⟨0, 0⟩
  else
    let (num, den) := x.ratio
    let k := exponentOf num den
    match search x k 17 1 with
    | none => ⟨0, 0⟩
    | some (p, unit) =>
      let digits := stripZeros 20 p
      ⟨digits, unit + Binary64.decimalLength p - 1⟩

end Decimal

end StageVars
