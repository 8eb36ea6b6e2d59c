import LogDensity.Program.Basic

/-!
# Writing density programs

`Step R α` is a piece of a program that delivers an `α`: all but the steps that come after it. In
this monad a density is written as if its operations were carried out one after the other;
`toProgram` closes it. The operations that are not steps of their own are composed here: piecewise
constant functions of a primal are constants, selections pass on one of their arguments, and the
others are sequences of steps.
-/

namespace LogDensity

/-- A part of a program that delivers a value to the rest. -/
def Step (R α : Type) : Type :=
  (α → Program R) → Program R

namespace Step

variable {R α β : Type}

instance : Monad (Step R) where
  pure a := fun next => next a
  bind s f := fun next => s fun a => f a next

/-- The program whose value is the delivered result. -/
def toProgram (s : Step R (Slot R)) : Program R :=
  s .result

/-- A value that depends on no parameter. -/
def constant (c : R) : Step R (Slot R) :=
  Program.constant c

/-- Writes text, whether or not it is kept. -/
def write (text : String) : Step R Unit := fun next =>
  .write text fun _ => next ()

/-- Ends the density with an error. -/
def fail (e : EvalError) : Step R α := fun _ =>
  .fail e

/-- Ends the density with a breach. -/
def halt (b : Breach) : Step R α := fun _ =>
  .halt b

/-- The element at a position of a list; a breach if there is none. -/
def element (xs : List (Slot R)) (i : Nat) : Step R (Slot R) :=
  match xs[i]? with
  | some x => pure x
  | none => halt (.indexOutOfRange xs.length i)

section

variable [Scalar R]

/-- A differentiable function of one argument. -/
def unary (f : Unary) (x : Slot R) : Step R (Slot R) :=
  Program.unary f x

/-- A differentiable function of two arguments. -/
def binary (f : Binary) (x y : Slot R) : Step R (Slot R) :=
  Program.binary f x y

/-! ## Arithmetic -/

def add : Slot R → Slot R → Step R (Slot R) := binary .add

def sub : Slot R → Slot R → Step R (Slot R) := binary .sub

def mul : Slot R → Slot R → Step R (Slot R) := binary .mul

def div : Slot R → Slot R → Step R (Slot R) := binary .div

def neg : Slot R → Step R (Slot R) := unary .neg

/-- `x * y + z`. -/
def mulAdd (x y z : Slot R) : Step R (Slot R) := do
  add (← mul x y) z

/-- The sum from left to right, beginning with zero. -/
def sum (xs : List (Slot R)) : Step R (Slot R) := do
  xs.foldlM add (← constant 0)

/-! ## Piecewise constant functions -/

def floor (x : Slot R) : Step R (Slot R) := constant (Elementary.floor x.primal)

def ceil (x : Slot R) : Step R (Slot R) := constant (Elementary.ceil x.primal)

def round (x : Slot R) : Step R (Slot R) := constant (Elementary.round x.primal)

def trunc (x : Slot R) : Step R (Slot R) := constant (Elementary.trunc x.primal)

def signum (x : Slot R) : Step R (Slot R) := constant (Elementary.signum x.primal)

/-! ## Selections -/

/-- The larger of two results; the other one if the first is not a number. -/
def maximum (x y : Slot R) : Slot R :=
  if Elementary.isNaN x.primal || Elementary.less x.primal y.primal then y else x

/-- The smaller of two results; the other one if the first is not a number. -/
def minimum (x y : Slot R) : Slot R :=
  if Elementary.isNaN x.primal || Elementary.less y.primal x.primal then y else x

/-- The nearest of the results between two bounds, which have to be in order. -/
def clamp (x low high : Slot R) : Step R (Slot R) :=
  if !Elementary.atMost low.primal high.primal then halt .unorderedBounds
  else if Elementary.less x.primal low.primal then pure low
  else if Elementary.less high.primal x.primal then pure high
  else pure x

/-- The difference where it is positive, and zero elsewhere. -/
def positiveDifference (x y : Slot R) : Step R (Slot R) :=
  if Elementary.atMost x.primal y.primal then constant 0 else sub x y

/-- The magnitude of `x` with the sign of `s`. -/
def copysign (x s : Slot R) : Step R (Slot R) :=
  if Elementary.isNegative x.primal == Elementary.isNegative s.primal then pure x else neg x

/-! ## Compositions -/

/-- The logarithm of `x` to a base. -/
def logBase (x base : Slot R) : Step R (Slot R) := do
  let a ← unary .ln x
  let b ← unary .ln base
  div a b

/-- Sine and cosine. -/
def sinCos (x : Slot R) : Step R (Slot R × Slot R) := do
  let s ← unary .sin x
  let c ← unary .cos x
  pure (s, c)

/-- A quarter turn in radians. -/
def quarterTurn : Step R (Slot R) := do
  unary .acos (← constant 0)

/-- Radians as degrees. -/
def toDegrees (x : Slot R) : Step R (Slot R) := do
  let quarter ← quarterTurn
  let ninety ← constant ((90 : Int) : R)
  div (← mul x ninety) quarter

/-- Degrees as radians. -/
def toRadians (x : Slot R) : Step R (Slot R) := do
  let quarter ← quarterTurn
  let ninety ← constant ((90 : Int) : R)
  div (← mul x quarter) ninety

end

end Step

end LogDensity
