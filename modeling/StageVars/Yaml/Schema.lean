import StageVars.Number.Digits
import StageVars.Number.Binary64
/-!
# StageVars.Yaml.Schema -- what a plain scalar means

A plain scalar is null, a boolean, an integer in one of four bases or a floating-point
number if its text has that form, and a string otherwise. A decimal text that begins
with a needless zero is a string. Integers beyond 64 bits are not representable up to
128 bits, and beyond these they are floating-point numbers.
-/

namespace StageVars

namespace Yaml

/-- What a text means as a plain scalar. -/
inductive Meaning where
  | null
  | bool (b : Bool)
  | integer (n : Int)
  /-- An integer of more than 64 bits but no more than 128. -/
  | wideInteger
  /-- A floating-point number; an infinite one or no number at all has no value. -/
  | float (x : Option Binary64)
  | text
deriving DecidableEq, Repr

namespace Schema

/-- The texts of null, apart from the empty one. -/
def isNull (s : String) : Bool := ["null", "Null", "NULL", "~"].contains s

/-- The texts of the booleans. -/
def bool? (s : String) : Option Bool :=
  if ["true", "True", "TRUE"].contains s then some true
  else if ["false", "False", "FALSE"].contains s then some false
  else none

/-- A sign, if there is one: whether it is a minus, and what follows it. -/
def sign : List Char → Bool × List Char
  | '+' :: rest => (false, rest)
  | '-' :: rest => (true, rest)
  | cs => (false, cs)

/-- Whether a text consists of decimal digits but begins with a needless zero. -/
def hasNeedlessZero (cs : List Char) : Bool :=
  match (sign cs).2 with
  | '0' :: c :: rest => (c :: rest).all Char.isDigit
  | _ => false

/-- The natural that a text without sign writes. -/
def natural? : List Char → Option Nat
  | '0' :: 'x' :: ds => Digits.natural? 16 ds
  | '0' :: 'o' :: ds => Digits.natural? 8 ds
  | '0' :: 'b' :: ds => Digits.natural? 2 ds
  | ds => Digits.natural? 10 ds

/-- The integer that a text writes. -/
def integer? (cs : List Char) : Option Int :=
  if hasNeedlessZero cs then none
  else
    let (negative, ds) := sign cs
    (natural? ds).map fun n => if negative then -(n : Int) else n

/-- Whether 64 bits hold an integer, signed for negative ones. -/
def fits (n : Int) : Bool := -(Nat.pow 2 63 : Nat) ≤ n && n < (Nat.pow 2 64 : Nat)

/-- Whether 128 bits hold an integer, signed for negative ones. -/
def fitsDouble (n : Int) : Bool := -(Nat.pow 2 127 : Nat) ≤ n && n < (Nat.pow 2 128 : Nat)

/-- The digits at the start of a text, and the rest. -/
def takeDigits (cs : List Char) : List Char × List Char :=
  (cs.takeWhile Char.isDigit, cs.dropWhile Char.isDigit)

/-- The power of ten behind a mantissa. -/
def exponent? : List Char → Option Int
  | [] => some 0
  | c :: rest =>
    if c = 'e' ∨ c = 'E' then
      let (negative, ds) := sign rest
      (Digits.natural? 10 ds).map fun n => if negative then -(n : Int) else n
    else none

/-- The finite number nearest to a decimal text: digits with a point among or beside
them, and maybe an exponent. -/
def finite? (cs : List Char) : Option Binary64 := do
  let (negative, cs) := sign cs
  let (whole, cs) := takeDigits cs
  let (fraction, cs) := match cs with
    | '.' :: cs => takeDigits cs
    | cs => ([], cs)
  if whole.isEmpty ∧ fraction.isEmpty then none
  let e ← exponent? cs
  let x ← Binary64.ofDecimal? (Digits.decimal (whole ++ fraction)) (e - fraction.length)
  return x.withSign negative

/-- Whether a text writes an infinite number. -/
def isInfinite (s : String) : Bool :=
  [".inf", ".Inf", ".INF", "+.inf", "+.Inf", "+.INF", "-.inf", "-.Inf", "-.INF"].contains s

/-- Whether a text writes that there is no number. -/
def isNotANumber (s : String) : Bool := [".nan", ".NaN", ".NAN"].contains s

/-- The floating-point number that a text writes. -/
def float? (s : String) : Option (Option Binary64) :=
  if isInfinite s || isNotANumber s then some none
  else (finite? s.toList).map some

/-- The integer that a text writes, if 128 bits hold it. -/
def integerMeaning? (s : String) : Option Meaning :=
  match integer? s.toList with
  | some n =>
    if fits n then some (.integer n)
    else if fitsDouble n then some .wideInteger
    else none
  | none => none

/-- The meaning of a plain scalar. -/
def meaning (s : String) : Meaning :=
  if s.isEmpty || isNull s then .null
  else match bool? s with
    | some b => .bool b
    | none =>
      match integerMeaning? s with
      | some m => m
      | none =>
        if hasNeedlessZero s.toList then .text
        else match float? s with
          | some x => .float x
          | none => .text

end Schema

end Yaml

end StageVars
