/-!
# Exact parts of binary64 numbers

A finite binary64 number is `± mantissa * 2 ^ exponent` for integers that its 64 bits show.
This module reads them off (`parts`), builds a number from them (`ofParts`), and computes with
them, without rounding, the functions whose results are exact: the four roundings to an integer
and the remainder of a division (`remainder`).

Not-a-number has no sign here: `isNegative` is false for it.
-/

namespace LogDensity.Binary64

/-- The quiet not-a-number. -/
def nan : Float := Float.ofBits 0x7ff8000000000000

/-- Positive infinity. -/
def infinity : Float := Float.ofBits 0x7ff0000000000000

/-- The sign bit; not-a-number counts as positive. -/
def isNegative (x : Float) : Bool :=
  !x.isNaN && Nat.pow 2 63 ≤ x.toBits.toNat

/-- A finite number is `± mantissa * 2 ^ exponent`. -/
structure Parts where
  negative : Bool
  mantissa : Nat
  exponent : Int
  deriving DecidableEq, Repr

/-- The numerator of the magnitude as a quotient. -/
def Parts.num (p : Parts) : Nat :=
  p.mantissa * Nat.pow 2 p.exponent.toNat

/-- The denominator, a power of two. -/
def Parts.den (p : Parts) : Nat :=
  Nat.pow 2 (-p.exponent).toNat

/-- The exponent field: 0 for zero and subnormal numbers, 2047 for the non-finite ones. -/
def exponentField (x : Float) : Nat :=
  x.toBits.toNat / Nat.pow 2 52 % Nat.pow 2 11

/-- The 52 low bits. -/
def fractionField (x : Float) : Nat :=
  x.toBits.toNat % Nat.pow 2 52

/-- Sign, mantissa and exponent of a finite number. The mantissa is below `2 ^ 53`, and the
exponent is at least `-1074`. -/
def parts (x : Float) : Parts where
  negative := Nat.pow 2 63 ≤ x.toBits.toNat
  mantissa := if exponentField x = 0 then fractionField x else Nat.pow 2 52 + fractionField x
  exponent := if exponentField x = 0 then -1074 else (exponentField x : Int) - 1075

/-- `± m * 2 ^ e`, exact whenever that is a binary64 number; further low bits are dropped. -/
def ofParts (negative : Bool) (m : Nat) (e : Int) : Float :=
  let sign : Nat := if negative then Nat.pow 2 63 else 0
  if m = 0 then Float.ofBits (UInt64.ofNat sign)
  else
    let shift : Int := max ((m.log2 : Int) - 52) (-1074 - e)
    let m := if 0 ≤ shift then m >>> shift.toNat else m <<< (-shift).toNat
    let field : Nat := if m < Nat.pow 2 52 then 0 else (e + shift + 1075).toNat
    Float.ofBits (UInt64.ofNat (sign + field * Nat.pow 2 52 + m % Nat.pow 2 52))

/-- The same magnitude with the sign of `s`. -/
def withSign (s x : Float) : Float :=
  if isNegative s == isNegative x then x else -x

/-! ## Classes of numbers -/

/-- The five classes of binary64 numbers. -/
inductive Category
  | nan
  | infinite
  | zero
  | subnormal
  | normal
  deriving DecidableEq, Repr

/-- The class of a number. -/
def category (x : Float) : Category :=
  if x.isNaN then .nan
  else if x.isInf then .infinite
  else if exponentField x = 0 then (if fractionField x = 0 then .zero else .subnormal)
  else .normal

/-! ## Rounding to an integer -/

/-- Rounds the magnitude of a finite number to an integer. `pick q r d` is given the sign, the
whole part `q`, and the fractional part `r / d`. Numbers without fractional part, infinities and
not-a-number are returned as they are; the sign is kept, also of a zero. -/
def roundWith (pick : Bool → Nat → Nat → Nat → Nat) (x : Float) : Float :=
  if x.isNaN || x.isInf then x
  else
    let p := parts x
    if 0 ≤ p.exponent then x
    else
      ofParts p.negative (pick p.negative (p.mantissa / p.den) (p.mantissa % p.den) p.den) 0

/-- Toward zero. -/
def trunc : Float → Float :=
  roundWith fun _ q _ _ => q

/-- Toward negative infinity. -/
def floor : Float → Float :=
  roundWith fun negative q r _ => if negative && r != 0 then q + 1 else q

/-- Toward positive infinity. -/
def ceil : Float → Float :=
  roundWith fun negative q r _ => if !negative && r != 0 then q + 1 else q

/-- To the nearest integer, a half away from zero. -/
def round : Float → Float :=
  roundWith fun _ q r d => if d ≤ 2 * r then q + 1 else q

/-- The integer a finite number truncates to. -/
def toInt? (x : Float) : Option Int :=
  if x.isNaN || x.isInf then none
  else
    let p := parts x
    let q := p.num / p.den
    some (if p.negative then -(q : Int) else q)

/-- One with the sign of the argument; not-a-number stays. -/
def signum (x : Float) : Float :=
  if x.isNaN then nan else withSign x 1

/-! ## The remainder -/

/-- What is left of `x` after an integer multiple of `y`, that of the quotient rounded toward
zero, is taken away; the result is exact and has the sign of `x`. There is none for an infinite
`x` or a zero `y`. -/
def remainder (x y : Float) : Float :=
  if x.isNaN || y.isNaN || x.isInf || y == 0 then nan
  else if y.isInf then x
  else
    let p := parts x
    let q := parts y
    let e := min p.exponent q.exponent
    let a := p.mantissa * Nat.pow 2 (p.exponent - e).toNat
    let b := q.mantissa * Nat.pow 2 (q.exponent - e).toNat
    ofParts p.negative (a % b) e

/-! ## Integer decomposition and neighbours -/

/-- Mantissa, exponent and sign as the bits show them, a subnormal mantissa doubled so that its
exponent is that of the bits; also for infinities. -/
def integerDecode (x : Float) : Nat × Int × Int :=
  let f := exponentField x
  (if f = 0 then 2 * fractionField x else Nat.pow 2 52 + fractionField x,
    (f : Int) - 1075, if Nat.pow 2 63 ≤ x.toBits.toNat then -1 else 1)

/-- The next number below a positive finite one. -/
def below (x : Float) : Float :=
  Float.ofBits (x.toBits - 1)

end LogDensity.Binary64
