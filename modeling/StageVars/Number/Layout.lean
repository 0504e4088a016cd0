import StageVars.Number.Shortest
/-!
# StageVars.Number.Layout -- how a floating-point number is written

The digits of a number are those of its shortest decimal; a `FloatLayout` says how
they are set out: between which decimal exponents without an exponent part, and how
the sign of an exponent is written. Written numbers always show a point or an
exponent, so none can be read back as an integer.
-/

namespace StageVars

/-- The decisions of an output format about floating-point numbers. -/
structure FloatLayout where
  /-- The least decimal exponent written without an exponent part. -/
  minPlain : Int
  /-- The greatest decimal exponent written without an exponent part. -/
  maxPlain : Int
  /-- What stands before a positive exponent. -/
  plus : String
deriving DecidableEq, Repr

namespace FloatLayout

/-- Digits with a point after the first `before` of them, zeros filled in on either
side and at least one digit after the point. -/
def plain (digits : List Char) (exponent : Int) : List Char :=
  if exponent < 0 then
    '0' :: '.' :: (List.replicate (-exponent - 1).toNat '0' ++ digits)
  else
    let before := exponent.toNat + 1
    let padded := digits ++ List.replicate (before - digits.length) '0'
    let fraction := padded.drop before
    padded.take before ++ '.' :: (if fraction.isEmpty then ['0'] else fraction)

/-- Digits with a point after the first and the exponent behind. -/
def scientific (layout : FloatLayout) (digits : List Char) (exponent : Int) : List Char :=
  let mantissa := match digits with
    | first :: second :: rest => first :: '.' :: second :: rest
    | short => short
  let sign := if exponent < 0 then ['-'] else layout.plus.toList
  mantissa ++ 'e' :: (sign ++ Nat.toDigits 10 exponent.natAbs)

/-- The text of a number. -/
def write (layout : FloatLayout) (x : Binary64) : String :=
  let d := Decimal.shortest x
  let digits := Nat.toDigits 10 d.digits
  let body :=
    if layout.minPlain ≤ d.exponent ∧ d.exponent ≤ layout.maxPlain then plain digits d.exponent
    else layout.scientific digits d.exponent
  String.ofList (if x.negative then '-' :: body else body)

end FloatLayout

end StageVars
