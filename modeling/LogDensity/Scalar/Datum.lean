import LogDensity.Binary64.Functions
import LogDensity.Binary64.Text
import LogDensity.Decimal.Reading
import LogDensity.Scalar.Basic

/-!
# Binary64 data

A `Datum` is a binary64 number, or not a number, in which case it still has a sign. Arithmetic on
numbers is that of binary64. An operation that has no result on numbers gives a negative
not-a-number; an operation on not-a-number passes it on with its sign, the first one if there are
two. The sign of a not-a-number shows only where signs are compared.
-/

namespace LogDensity

/-- A binary64 number, or a signed not-a-number. -/
structure Datum where
  value : Float
  /-- The sign of a not-a-number; numbers carry their own. -/
  nanNegative : Bool
  isNaN_of_nanNegative : nanNegative = true → value.isNaN = true
  deriving DecidableEq

namespace Datum

/-- A datum with the given sign if it is not a number. -/
def withNaNSign (x : Float) (negative : Bool) : Datum :=
  ⟨x, x.isNaN && negative, fun h => by simp_all⟩

/-- A number; not-a-number is positive. -/
def ofFloat (x : Float) : Datum :=
  withNaNSign x false

instance : Coe Float Datum where
  coe := ofFloat

instance : Inhabited Datum where
  default := ofFloat 0

/-- The datum that a literal denotes. -/
def ofLiteral (l : Literal) : Datum :=
  withNaNSign l.toFloat l.isNegative

/-- Whether it is not a number. -/
def isNaN (a : Datum) : Bool :=
  a.value.isNaN

/-- The sign, also of a not-a-number. -/
def isNegative (a : Datum) : Bool :=
  a.nanNegative || Binary64.isNegative a.value

/-- Applies a function of one number. -/
def map (f : Float → Float) (a : Datum) : Datum :=
  withNaNSign (f a.value) (if a.isNaN then a.nanNegative else true)

/-- Applies a function of two numbers. -/
def map₂ (f : Float → Float → Float) (a b : Datum) : Datum :=
  withNaNSign (f a.value b.value)
    (if a.isNaN then a.nanNegative else if b.isNaN then b.nanNegative else true)

/-- The opposite sign. -/
def neg (a : Datum) : Datum :=
  withNaNSign (-a.value) !a.nanNegative

/-- The positive sign. -/
def abs (a : Datum) : Datum :=
  withNaNSign a.value.abs false

/-- One with the sign of a number. -/
def signum (a : Datum) : Datum :=
  withNaNSign (Binary64.signum a.value) false

/-- The angle of a point; of two that are not numbers, the abscissa is passed on. -/
def atan2 (y x : Datum) : Datum :=
  map₂ (fun x y => Float.atan2 y x) x y

instance : Add Datum where
  add := map₂ (· + ·)

instance : Sub Datum where
  sub := map₂ (· - ·)

instance : Mul Datum where
  mul := map₂ (· * ·)

instance : Div Datum where
  div := map₂ (· / ·)

instance : Neg Datum where
  neg := neg

instance : Zero Datum where
  zero := ofFloat 0

instance : One Datum where
  one := ofFloat 1

instance : BEq Datum where
  beq a b := a.value == b.value

instance : IntCast Datum where
  intCast i := ofFloat (Float.ofInt i)

instance : Elementary Datum where
  less a b := a.value < b.value
  atMost a b := a.value ≤ b.value
  isNaN := isNaN
  isNegative := isNegative
  abs := abs
  floor := map Binary64.floor
  ceil := map Binary64.ceil
  round := map Binary64.round
  trunc := map Binary64.trunc
  signum := signum
  rem := map₂ Binary64.remainder
  sqrt := map Float.sqrt
  cbrt := map Float.cbrt
  hypot := map₂ Binary64.hypot
  powf := map₂ Float.pow
  exp := map Float.exp
  exp2 := map Float.exp2
  expm1 := map Binary64.expm1
  ln := map Float.log
  log2 := map Float.log2
  log10 := map Float.log10
  log1p := map Binary64.log1p
  sin := map Float.sin
  cos := map Float.cos
  tan := map Float.tan
  asin := map Float.asin
  acos := map Float.acos
  atan := map Float.atan
  atan2 := atan2
  sinh := map Float.sinh
  cosh := map Float.cosh
  tanh := map Float.tanh
  asinh := map Float.asinh
  acosh := map Float.acosh
  atanh := map Binary64.atanh
  ln2 := ofFloat 0.693147180559945309417232121458176568
  ln10 := ofFloat 2.30258509299404568401799145468436421
  pi := ofFloat 3.14159265358979323846264338327950288

instance : Printable Datum where
  display a := Binary64.display a.value
  fixed places a := Binary64.fixed places a.value

end Datum

end LogDensity
