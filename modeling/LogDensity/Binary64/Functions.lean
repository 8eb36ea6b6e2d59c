import LogDensity.Binary64.Basic

/-!
# Functions with care for small and large arguments

`exp x - 1` (`expm1`), `log (1 + x)` (`log1p`) and the length of a two-dimensional vector
(`hypot`), each within one unit in the last place: no digits are lost to cancellation, and no
intermediate result overflows. The first two take a multiple of `log 2` out of the argument or of
the result and use a short series for the rest. The inverse of the hyperbolic tangent (`atanh`) is
expressed by `log1p`.
-/

namespace LogDensity.Binary64

/-- `log 2` to 32 bits, so that its multiples by the exponents of binary64 are exact. -/
def ln2High : Float := 6.93147180369123816490e-01

/-- What `ln2High` leaves of `log 2`. -/
def ln2Low : Float := 1.90821492927058770002e-10

/-! ## The exponential -/

/-- What `exp (x + c) - 1` is short of `x`, for `x` between `± log 2 / 2` and a `c` far below it. -/
def expTail (x c : Float) : Float :=
  let half := 0.5 * x
  let y := x * half
  let y2 := y * y
  let r := (1 + y * -3.33333333333331316428e-02)
    + y2 * (1.58730158725481460165e-03 + y * -7.93650757867487942473e-05)
    + y2 * y2 * (4.00821782732936239552e-06 + y * -2.01099218183624371326e-07)
  let t := 3 - r * half
  let e := y * ((r - t) / (6 - x * t))
  (x * (e - c) - c) - y

/-- `exp x - 1`. The argument is `k * log 2 + y + c` for an integer `k`; how `2 ^ k` and one are
put together depends on which of them is larger. -/
def expm1 (x : Float) : Float :=
  if x.isNaN then x
  else if 7.09782712893383973096e+02 < x then infinity
  else if x < -40 then -1
  else
    let k := (toInt? (round (1.44269504088896338700 * x))).getD 0
    let high := x - Float.ofInt k * ln2High
    let low := Float.ofInt k * ln2Low
    let y := high - low
    let t := expTail y ((high - y) - low)
    let unit := Float.scaleB 1 (-k)
    if k = 0 then y - t
    else if k = -1 then 0.5 * (y - t) - 0.5
    else if k = 1 then
      if y < -0.25 then -2 * (t - (y + 0.5)) else 1 + 2 * (y - t)
    else if k < 0 ∨ 56 < k then (1 - (t - y)).scaleB k - 1
    else if k < 20 then ((1 - unit) - (t - y)).scaleB k
    else ((y - (t + unit)) + 1).scaleB k

/-! ## The logarithm -/

/-- `k * log 2 + log (1 + f) + c`, for `f` between `√½ - 1` and `√2 - 1` and a `c` far below one:
a series in `f / (2 + f)` is added up from its small terms on. -/
def logSum (k f c : Float) : Float :=
  let square := 0.5 * f * f
  let s := f / (2 + f)
  let z := s * s
  let z2 := z * z
  let z4 := z2 * z2
  let r := z * 6.666666666666735130e-01
    + z2 * (3.999999999940941908e-01 + z * 2.857142874366239149e-01)
    + z4 * (2.222219843214978396e-01 + z * 1.818357216161805012e-01)
    + z4 * z2 * (1.531383769920937332e-01 + z * 1.479819860510658591e-01)
  k * ln2High - ((square - (s * (square + r) + (k * ln2Low + c))) - f)

/-- `log (1 + x)`. Unless `x` is small, `1 + x` is a power of two times a number near one, and what
its rounding dropped is put back. -/
def log1p (x : Float) : Float :=
  if x < -1 then nan
  else if x == -1 then -infinity
  else if x == 0 || x.isNaN || x.isInf then x
  else if -0.2928932188134524 < x && x < 0.41421356237309503 then logSum 0 x 0
  else
    let u := 1 + x
    let c := (if 1 ≤ x then 1 - (u - x) else x - (u - 1)) / u
    let (m, e) := u.frExp
    if m < 0.7071067811865476 then logSum (Float.ofInt (e - 1)) (2 * m - 1) c
    else logSum (Float.ofInt e) (m - 1) c

/-- The inverse of the hyperbolic tangent, as half of `log ((1 + x) / (1 - x))`. Near minus one the
quotient `2 x / (1 - x)` is near minus one as well, and its rounding shows in the result. -/
def atanh (x : Float) : Float :=
  0.5 * log1p (2 * x / (1 - x))

/-! ## Lengths -/

/-- The diagonal of a rectangle with sides `b ≤ a` whose squares neither overflow nor vanish: the
root of the rounded sum of squares, and one step of Newton's method from there. -/
def diagonal (a b : Float) : Float :=
  let h := (a * a + b * b).sqrt
  let excess :=
    if h ≤ 2 * b then
      let d := h - b
      a * (2 * d - a) + (d - 2 * (a - b)) * d
    else
      let d := h - a
      2 * d * (a - 2 * b) + ((4 * d - b) * b + d * d)
  h - excess / (2 * h)

/-- `sqrt (x² + y²)`; infinite if either argument is. Very large and very small sides are scaled. -/
def hypot (x y : Float) : Float :=
  if x.isInf || y.isInf then infinity
  else if x.isNaN || y.isNaN then nan
  else
    let a := if x.abs < y.abs then y.abs else x.abs
    let b := if x.abs < y.abs then x.abs else y.abs
    if b ≤ a.scaleB (-54) then a + b
    else if Float.scaleB 1 511 < a then
      (diagonal (a.scaleB (-600)) (b.scaleB (-600))).scaleB 600
    else if b < Float.scaleB 1 (-459) then
      (diagonal (a.scaleB 600) (b.scaleB 600)).scaleB (-600)
    else diagonal a b

end LogDensity.Binary64
