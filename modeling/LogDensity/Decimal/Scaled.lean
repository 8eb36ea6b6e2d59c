import LogDensity.Decimal.Basic
import LogDensity.Decimal.Reading

/-!
# Numbers read through one word

A number may be read quickly instead of exactly: only the first digits, as many as fit in 64 bits,
are kept (`Decimal.ofNumeral`), and their value is then multiplied or divided by a power of ten in
binary64 (`Decimal.scaled?`). Each step rounds, so the result can differ in its last bits from the
nearest binary64 number.
-/

namespace LogDensity.Decimal

/-- One more digit, if the number still fits in 64 bits. -/
def pushDigit? (n : Nat) (c : Char) : Option Nat :=
  let m := Literal.pushDigit n c
  if m < UInt64.size then some m else none

/-- Appends digits in front of the point. The first one that does not fit, and all behind it, count
only as places. -/
def appendWhole (n : Nat) : List Char → Decimal
  | [] => ⟨n, 0⟩
  | c :: cs =>
    match pushDigit? n c with
    | some m => appendWhole m cs
    | none => ⟨n, (c :: cs).length⟩

/-- Appends digits behind the point, up to the first one that does not fit. -/
def appendPlaces (d : Decimal) : List Char → Decimal
  | [] => d
  | c :: cs =>
    match pushDigit? d.digits c with
    | some m => appendPlaces ⟨m, d.exponent - 1⟩ cs
    | none => d

/-- The first digits of a number, as many as fit in 64 bits. -/
def ofNumeral (n : Numeral) : Decimal :=
  let d := appendPlaces (appendWhole 0 n.whole) n.places
  { d with exponent := d.exponent + n.exponent }

/-- The greatest power of ten below the largest binary64 number. -/
def maxPower : Nat := 308

/-- The binary64 number nearest to a power of ten; infinite beyond `maxPower`. -/
def powerOfTen (k : Nat) : Float :=
  Float.ofScientific 1 false k

/-- `x * 10 ^ exponent` for an `x` that is not negative, by one multiplication or by divisions; none
if it overflows. -/
def scale? (x : Float) (exponent : Int) : Option Float :=
  if x == 0 then some x
  else if 0 ≤ exponent then
    let y := x * powerOfTen exponent.toNat
    if y.isInf then none else some y
  else if -(maxPower : Int) ≤ exponent then some (x / powerOfTen (-exponent).toNat)
  else scale? (x / powerOfTen maxPower) (exponent + maxPower)
termination_by (-exponent).toNat
decreasing_by simp only [maxPower] at *; omega

/-- The value, with a rounding at each step; none if it overflows. -/
def scaled? (d : Decimal) : Option Float :=
  scale? (Float.ofNat d.digits) d.exponent

end LogDensity.Decimal
