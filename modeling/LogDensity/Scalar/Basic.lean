import LogDensity.Scalar.Power

/-!
# Scalars

A density is written over scalars: values with arithmetic (`+ - * /`, negation, zero, one, integer
constants, a test for equality) and the functions of `Elementary`. No laws are asked for, so the
same definitions run on binary64 numbers and can be reasoned about over a field; `Scalar` gathers
the operations and is found for every type that has them.
-/

namespace LogDensity

/-- Comparisons, roundings, transcendental functions and constants of a type of scalars. -/
class Elementary (R : Type) where
  /-- Strictly less. -/
  less : R → R → Bool
  /-- Less or equal. -/
  atMost : R → R → Bool
  /-- Whether the value is not a number. -/
  isNaN : R → Bool
  /-- The sign bit. -/
  isNegative : R → Bool
  abs : R → R
  floor : R → R
  ceil : R → R
  round : R → R
  trunc : R → R
  signum : R → R
  /-- The remainder that belongs to the quotient truncated toward zero. -/
  rem : R → R → R
  sqrt : R → R
  cbrt : R → R
  hypot : R → R → R
  /-- A real power. -/
  powf : R → R → R
  exp : R → R
  exp2 : R → R
  expm1 : R → R
  ln : R → R
  log2 : R → R
  log10 : R → R
  log1p : R → R
  sin : R → R
  cos : R → R
  tan : R → R
  asin : R → R
  acos : R → R
  atan : R → R
  /-- The angle of the point whose ordinate is the first argument. -/
  atan2 : R → R → R
  sinh : R → R
  cosh : R → R
  tanh : R → R
  asinh : R → R
  acosh : R → R
  atanh : R → R
  /-- The natural logarithm of two. -/
  ln2 : R
  /-- The natural logarithm of ten. -/
  ln10 : R
  pi : R

/-- All that a density computes with. -/
class abbrev Scalar (R : Type) :=
  Add R, Sub R, Mul R, Div R, Neg R, Zero R, One R, BEq R, IntCast R, Elementary R

/-- Scalars with written forms. -/
class Printable (R : Type) where
  /-- The shortest positional form. -/
  display : R → String
  /-- A form with a fixed number of digits after the point. -/
  fixed : Nat → R → String

variable {R : Type} [Scalar R]

/-- One half. -/
def half : R := 1 / ((2 : Int) : R)

/-! ## Functions of one argument -/

/-- The differentiable functions of one argument. -/
inductive Unary
  | neg
  | fract
  | abs
  | recip
  | powi (n : Int32)
  | sqrt
  | cbrt
  | exp
  | exp2
  | expm1
  | ln
  | log2
  | log10
  | log1p
  | sin
  | cos
  | tan
  | asin
  | acos
  | atan
  | sinh
  | cosh
  | tanh
  | asinh
  | acosh
  | atanh
  deriving DecidableEq

namespace Unary

open Elementary

/-- The value of a function. -/
def value : Unary → R → R
  | neg, x => -x
  | fract, x => x - Elementary.trunc x
  | abs, x => Elementary.abs x
  | recip, x => 1 / x
  | powi n, x => power x n.toInt
  | sqrt, x => Elementary.sqrt x
  | cbrt, x => Elementary.cbrt x
  | exp, x => Elementary.exp x
  | exp2, x => Elementary.exp2 x
  | expm1, x => Elementary.expm1 x
  | ln, x => Elementary.ln x
  | log2, x => Elementary.log2 x
  | log10, x => Elementary.log10 x
  | log1p, x => Elementary.log1p x
  | sin, x => Elementary.sin x
  | cos, x => Elementary.cos x
  | tan, x => Elementary.tan x
  | asin, x => Elementary.asin x
  | acos, x => Elementary.acos x
  | atan, x => Elementary.atan x
  | sinh, x => Elementary.sinh x
  | cosh, x => Elementary.cosh x
  | tanh, x => Elementary.tanh x
  | asinh, x => Elementary.asinh x
  | acosh, x => Elementary.acosh x
  | atanh, x => Elementary.atanh x

/-- The derivative of a function, written with its value where that is the usual form. -/
def slope : Unary → R → R
  | neg, _ => -1
  | fract, _ => 1
  | abs, x => if less 0 x then 1 else if less x 0 then -1 else 0
  | recip, x => let r := 1 / x; -r * r
  | powi n, x => if n = 0 then 0 else ((n.toInt : Int) : R) * power x (n.toInt - 1)
  | sqrt, x => half / Elementary.sqrt x
  | cbrt, x =>
    let c := Elementary.cbrt x
    1 / (((3 : Int) : R) * c * c)
  | exp, x => Elementary.exp x
  | exp2, x => Elementary.exp2 x * ln2
  | expm1, x => Elementary.exp x
  | ln, x => 1 / x
  | log2, x => 1 / (x * ln2)
  | log10, x => 1 / (x * ln10)
  | log1p, x => 1 / (1 + x)
  | sin, x => Elementary.cos x
  | cos, x => -Elementary.sin x
  | tan, x =>
    let t := Elementary.tan x
    1 + t * t
  | asin, x => 1 / Elementary.sqrt (1 - x * x)
  | acos, x => -1 / Elementary.sqrt (1 - x * x)
  | atan, x => 1 / (1 + x * x)
  | sinh, x => Elementary.cosh x
  | cosh, x => Elementary.sinh x
  | tanh, x =>
    let t := Elementary.tanh x
    1 - t * t
  | asinh, x => 1 / Elementary.sqrt (x * x + 1)
  | acosh, x => 1 / Elementary.sqrt (x * x - 1)
  | atanh, x => 1 / (1 - x * x)

end Unary

/-! ## Functions of two arguments -/

/-- The differentiable functions of two arguments. -/
inductive Binary
  | add
  | sub
  | mul
  | div
  | rem
  | powf
  | hypot
  | atan2
  deriving DecidableEq

namespace Binary

open Elementary

/-- The value of a function. -/
def value : Binary → R → R → R
  | add, x, y => x + y
  | sub, x, y => x - y
  | mul, x, y => x * y
  | div, x, y => x / y
  | rem, x, y => Elementary.rem x y
  | powf, x, y => Elementary.powf x y
  | hypot, x, y => Elementary.hypot x y
  | atan2, x, y => Elementary.atan2 x y

/-- The two partial derivatives. -/
def slopes : Binary → R → R → R × R
  | add, _, _ => (1, 1)
  | sub, _, _ => (1, -1)
  | mul, x, y => (y, x)
  | div, x, y => (1 / y, -(x / y) / y)
  | rem, x, y => (1, -Elementary.trunc (x / y))
  | powf, x, y =>
    (if y == 0 then 0 else y * Elementary.powf x (y - 1),
      if less 0 x then Elementary.powf x y * Elementary.ln x else 0)
  | hypot, x, y =>
    let h := Elementary.hypot x y
    (x / h, y / h)
  | atan2, y, x =>
    let r := x * x + y * y
    (x / r, -y / r)

end Binary

end LogDensity
