/-!
# Standard normal draws

A word is turned into a standard normal draw by inversion: its upper 52 bits are a probability, and
the draw is a rational approximation of the quantile, exact at one half, where it is zero.
-/

namespace LogDensity.StandardNormal

/-- The value of a polynomial, coefficients from the highest power down. -/
def horner (x : Float) (cs : List Float) : Float :=
  cs.foldl (fun y c => y * x + c) 0

/-- The quotient of two polynomials for the middle of the distribution. -/
def middle (q : Float) : Float :=
  let r := q * q
  q * horner r [-3.969683028665376e1, 2.209460984245205e2, -2.759285104469687e2,
      1.383577518672690e2, -3.066479806614716e1, 2.506628277459239] /
    horner r [-5.447609879822406e1, 1.615858368580409e2, -1.556989798598866e2,
      6.680131188771972e1, -1.328068155288572e1, 1]

/-- The same for the lower tail. -/
def tail (p : Float) : Float :=
  let q := (-2 * p.log).sqrt
  horner q [-7.784894002430293e-3, -3.223964580411365e-1, -2.400758277161838,
      -2.549732539343734, 4.374664141464968, 2.938163982698783] /
    horner q [7.784695709041462e-3, 3.224671290700398e-1, 2.445134137142996,
      3.754408661907416, 1]

/-- The quantile of a probability. -/
def quantile (p : Float) : Float :=
  if p < 0.02425 then tail p
  else if 1 - 0.02425 < p then -tail (1 - p)
  else middle (p - 0.5)

/-- The draw that a word stands for. -/
def draw (w : UInt64) : Float :=
  let k := (w >>> 12).toNat
  quantile (if k = 0 then 1.1102230246251565e-16 else Float.ofNat k / 4503599627370496)

end LogDensity.StandardNormal
