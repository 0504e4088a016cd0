import StageVars.Number.Digits
import StageVars.Value.Basic
/-!
# StageVars.Json.Numeral -- reading JSON numbers

A numeral without fraction and exponent is an integer as long as 64 bits hold it,
signed for negative ones. Every other numeral is a floating-point number, read by the
64-bit significand rule: its leading digits, as many as 64 bits hold, are rounded to
a number, which is then multiplied or divided by the rounded power of ten. The result
may be one place off the nearest number; a magnitude that is not finite is refused.
-/

namespace StageVars

namespace Json

/-- The greatest 64-bit natural. -/
def maxWord : Nat := Nat.pow 2 64 - 1

/-- The parts of a numeral as they were written. -/
structure Numeral where
  negative : Bool
  whole : List Char
  fraction : Option (List Char)
  exponent : Option (Bool × List Char)
deriving DecidableEq, Repr

/-! ## The grammar -/

/-- At least one digit, and what follows the digits. -/
def digits? (cs : List Char) : Option (List Char × List Char) :=
  match cs.takeWhile Char.isDigit with
  | [] => none
  | ds => some (ds, cs.dropWhile Char.isDigit)

/-- The digits before a point: no zero stands before another digit. -/
def whole? (cs : List Char) : Option (List Char × List Char) :=
  match digits? cs with
  | some ('0' :: _ :: _, _) => none
  | other => other

/-- A point and digits, or nothing. -/
def fraction? : List Char → Option (Option (List Char) × List Char)
  | '.' :: cs => (digits? cs).map fun (ds, rest) => (some ds, rest)
  | cs => some (none, cs)

/-- An exponent with its sign, or nothing. -/
def exponent? : List Char → Option (Option (Bool × List Char) × List Char)
  | c :: cs =>
    if c = 'e' ∨ c = 'E' then
      match cs with
      | '+' :: ds => (digits? ds).map fun (ds, rest) => (some (false, ds), rest)
      | '-' :: ds => (digits? ds).map fun (ds, rest) => (some (true, ds), rest)
      | ds => (digits? ds).map fun (ds, rest) => (some (false, ds), rest)
    else some (none, c :: cs)
  | [] => some (none, [])

/-- A numeral without its sign, and what follows it. -/
def unsignedNumeral? (negative : Bool) (cs : List Char) : Option (Numeral × List Char) := do
  let (whole, cs) ← whole? cs
  let (fraction, cs) ← fraction? cs
  let (exponent, cs) ← exponent? cs
  return (⟨negative, whole, fraction, exponent⟩, cs)

/-- A numeral and what follows it. -/
def numeral? : List Char → Option (Numeral × List Char)
  | '-' :: cs => unsignedNumeral? true cs
  | cs => unsignedNumeral? false cs

/-! ## The value -/

namespace Numeral

/-- Take digits into a significand while 64 bits hold it: the significand and how many
digits were taken. -/
def takeDigits : Nat → List Char → Nat × Nat
  | significand, [] => (significand, 0)
  | significand, c :: rest =>
    let next := 10 * significand + Digits.decimal [c]
    if next > maxWord then (significand, 0)
    else
      let (final, taken) := takeDigits next rest
      (final, taken + 1)

/-- The significand of a numeral and its power of ten before the written exponent. -/
def significand (n : Numeral) : Nat × Int :=
  let (s, taken) := takeDigits 0 n.whole
  let dropped : Int := (n.whole.length : Int) - taken
  let (s, taken) := takeDigits s (n.fraction.getD [])
  (s, dropped - taken)

/-- A significand times a power of ten, rounded once for each step. Dividing goes by
`10 ^ 308` at most in one step; two such steps leave nothing of a 64-bit significand. -/
def scale? (s : Nat) (e : Int) : Option Binary64 := do
  if s = 0 then return Binary64.zero
  let x ← Binary64.ofNat? s
  if e > 308 then none
  else if e ≥ 0 then x.mul? (← Binary64.ofDecimal? 1 e)
  else if e ≥ -308 then x.div? (← Binary64.ofDecimal? 1 (-e))
  else if e ≥ -616 then
    let y ← x.div? (← Binary64.ofDecimal? 1 308)
    if y.isZero then return Binary64.zero
    y.div? (← Binary64.ofDecimal? 1 (-e - 308))
  else return Binary64.zero

/-- The floating-point number of a numeral. -/
def float? (n : Numeral) : Option Binary64 := do
  let (s, e) := n.significand
  let written : Int := match n.exponent with
    | none => 0
    | some (false, ds) => Digits.decimal ds
    | some (true, ds) => -Digits.decimal ds
  let x ← scale? s (e + written)
  return x.withSign n.negative

/-- The number that a numeral stands for. -/
def number? (n : Numeral) : Option Number :=
  match n.fraction, n.exponent with
  | none, none =>
    let i := Digits.decimal n.whole
    if n.negative then
      if 0 < i ∧ i ≤ Nat.pow 2 63 then some (.integer (-i)) else n.float?.map .float
    else if i ≤ maxWord then some (.integer i)
    else n.float?.map .float
  | _, _ => n.float?.map .float

end Numeral

end Json

end StageVars
