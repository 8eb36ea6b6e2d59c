import LogDensity.Binary64.Basic
import LogDensity.Decimal.Shortest

/-!
# Written forms of binary64 numbers

* `display`: the shortest digits that read back, never with an exponent.
* `literal`: the same digits, with `.0` behind a whole number, and with an exponent from `1e16` on
  and below `1e-4`.
* `fixed`: a given number of digits after the point, halves to even.
* `scientific`: twelve significant digits with an exponent.

Not-a-number and the infinities are `NaN`, `inf` and `-inf` in all of them, and a negative zero
keeps its sign.
-/

namespace LogDensity.Binary64

/-- Writes the sign, the words for the non-finite numbers, and the magnitude of the others by
`body`. -/
def signed (x : Float) (body : Parts → String) : String :=
  if x.isNaN then "NaN"
  else
    (if isNegative x then "-" else "") ++ (if x.isInf then "inf" else body (parts x))

/-- The shortest digits, positional. -/
def display (x : Float) : String :=
  signed x fun p =>
    if p.mantissa = 0 then "0" else (Decimal.shortest p.mantissa p.exponent).positional

/-- The shortest digits, recognisable as a real number. -/
def literal (x : Float) : String :=
  signed x fun p =>
    if p.mantissa = 0 then "0.0"
    else
      let d := Decimal.shortest p.mantissa p.exponent
      if 1e16 ≤ x.abs || x.abs < 1e-4 then d.withExponent
      else if 0 ≤ d.exponent then d.positional ++ ".0"
      else d.positional

/-- Exactly `places` digits after the point. -/
def fixed (places : Nat) (x : Float) : String :=
  signed x fun p => Decimal.fixedPlaces places p.num p.den

/-- Twelve significant digits in scientific form, an exponent of zero left out. -/
def scientific (x : Float) : String :=
  signed x fun p =>
    if p.mantissa = 0 then "0"
    else
      let d := Decimal.significant 12 p.num p.den
      if d.exponent + (Decimal.digitChars d.digits).length - 1 = 0 then d.positional
      else d.withExponent

end LogDensity.Binary64
