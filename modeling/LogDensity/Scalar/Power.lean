/-!
# Integer powers by repeated squaring

`power x n` multiplies together those of `x`, `x²`, `x⁴`, … that the binary digits of `|n|` pick,
and takes the reciprocal at the end if `n` is negative. The order of the multiplications is fixed,
so the result is a definite one also where multiplication rounds.
-/

namespace LogDensity

variable {R : Type} [Mul R]

/-- `r` times `x ^ n`, squaring `x` once per binary digit of `n` after the first. -/
def powerFrom (x r : R) (n : Nat) : R :=
  let r := if n % 2 = 1 then r * x else r
  if n < 2 then r else powerFrom (x * x) r (n / 2)
termination_by n

/-- `x ^ n`, the reciprocal of `x ^ |n|` for a negative exponent. -/
def power [Div R] [One R] (x : R) (n : Int) : R :=
  let r := powerFrom x 1 n.natAbs
  if n < 0 then 1 / r else r

end LogDensity
