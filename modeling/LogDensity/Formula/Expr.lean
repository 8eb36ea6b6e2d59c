import LogDensity.Program.Step

/-!
# Expressions for densities

`Expr` is a small language of scalar expressions: parameters, constants, the functions of scalars,
bindings, and a conditional of which only one branch is evaluated. An expression can also fail, and
it can evaluate another density, of which it takes the value and the gradient as a constant.
`Expr.steps` turns it into a part of a density program, from left to right.
-/

namespace LogDensity

/-- Functions of one argument that an expression can apply. -/
inductive UnaryName
  | function (f : Unary)
  | floor
  | ceil
  | round
  | trunc
  | signum
  | toDegrees
  | toRadians
  deriving DecidableEq

/-- Functions of two arguments that an expression can apply. -/
inductive BinaryName
  | function (f : Binary)
  | maximum
  | minimum
  | positiveDifference
  | copysign
  | logBase
  deriving DecidableEq

/-- Scalar expressions. -/
inductive Expr (R : Type)
  | literal (c : R)
  | param (k : Nat)
  | discrete (k : Nat)
  | bound (k : Nat)
  | unary (f : UnaryName) (a : Expr R)
  | binary (f : BinaryName) (a b : Expr R)
  | mulAdd (a b c : Expr R)
  | clamp (a low high : Expr R)
  | sum (terms : List (Expr R))
  /-- `x` if `a` exceeds `b`, and `y` otherwise. -/
  | ifGreater (a b x y : Expr R)
  /-- Binds `a` behind the earlier bindings while `b` is evaluated. -/
  | bind (a b : Expr R)
  /-- The primal of `a` as a constant. -/
  | primal (a : Expr R)
  /-- The density `body` of a model that needs `size` values, at those of `args`: its value and
  the entries of its gradient, added up to a constant. -/
  | inner (name : String) (size : Nat) (body : Expr R) (args : List (Expr R))
  /-- An error if `a` exceeds the limit. -/
  | failAbove (a : Expr R) (limit : R) (message : String)
  /-- A breach if `a` exceeds the limit. -/
  | haltAbove (a : Expr R) (limit : R) (message : String)

namespace UnaryName

variable {R : Type} [Scalar R]

/-- The steps of applying a function. -/
def steps : UnaryName → Slot R → Step R (Slot R)
  | function f, x => Step.unary f x
  | floor, x => Step.floor x
  | ceil, x => Step.ceil x
  | round, x => Step.round x
  | trunc, x => Step.trunc x
  | signum, x => Step.signum x
  | toDegrees, x => Step.toDegrees x
  | toRadians, x => Step.toRadians x

end UnaryName

namespace BinaryName

variable {R : Type} [Scalar R]

/-- The steps of applying a function. -/
def steps : BinaryName → Slot R → Slot R → Step R (Slot R)
  | function f, x, y => Step.binary f x y
  | maximum, x, y => pure (Step.maximum x y)
  | minimum, x, y => pure (Step.minimum x y)
  | positiveDifference, x, y => Step.positiveDifference x y
  | copysign, x, y => Step.copysign x y
  | logBase, x, y => Step.logBase x y

end BinaryName

namespace Expr

variable {R : Type} [Scalar R]

/-- Evaluates the density of another model and adds up what it gives. -/
def innerStep (name : String) (size : Nat) (values : List R) (body : Program R) :
    Step R (Slot R) := fun next =>
  .nested name size values body fun value partials =>
    .constant (partials.foldl (· + ·) value) next

/-- The slots of the first values of a list. -/
def freshSlots (size : Nat) (values : List R) : List (Slot R) :=
  (values.take size).zipIdx.map fun (x, i) => ⟨i, x⟩

mutual

/-- The steps of evaluating an expression, given the parameters, the discrete parameters and the
bindings, the innermost last. -/
def steps (ints : List Int) : Expr R → List (Slot R) → List (Slot R) → Step R (Slot R)
  | literal c, _, _ => Step.constant c
  | param k, params, _ =>
    match params[k]? with
    | some x => pure x
    | none => Step.halt (.custom s!"parameter {k} missing")
  | discrete k, _, _ =>
    match ints[k]? with
    | some i => Step.constant (i : R)
    | none => Step.halt (.custom s!"discrete parameter {k} missing")
  | bound k, _, bindings => Step.element bindings k
  | unary f a, params, bindings => do
    let x ← a.steps ints params bindings
    f.steps x
  | binary f a b, params, bindings => do
    let x ← a.steps ints params bindings
    let y ← b.steps ints params bindings
    f.steps x y
  | mulAdd a b c, params, bindings => do
    let x ← a.steps ints params bindings
    let y ← b.steps ints params bindings
    let z ← c.steps ints params bindings
    Step.mulAdd x y z
  | clamp a low high, params, bindings => do
    let x ← a.steps ints params bindings
    let y ← low.steps ints params bindings
    let z ← high.steps ints params bindings
    Step.clamp x y z
  | sum terms, params, bindings => do
    let xs ← stepsOfList ints terms params bindings
    Step.sum xs
  | ifGreater a b x y, params, bindings => do
    let l ← a.steps ints params bindings
    let r ← b.steps ints params bindings
    if Elementary.less r.primal l.primal then x.steps ints params bindings
    else y.steps ints params bindings
  | bind a b, params, bindings => do
    let x ← a.steps ints params bindings
    b.steps ints params (bindings ++ [x])
  | primal a, params, bindings => do
    let x ← a.steps ints params bindings
    Step.constant x.primal
  | inner name size body args, params, bindings => do
    let xs ← stepsOfList ints args params bindings
    let values := xs.map Slot.primal
    innerStep name size values (body.steps ints (freshSlots size values) []).toProgram
  | failAbove a limit message, params, bindings => do
    let x ← a.steps ints params bindings
    if Elementary.less limit x.primal then Step.fail (.domain message) else pure x
  | haltAbove a limit message, params, bindings => do
    let x ← a.steps ints params bindings
    if Elementary.less limit x.primal then Step.halt (.custom message) else pure x

/-- The steps of evaluating expressions one after the other. -/
def stepsOfList (ints : List Int) :
    List (Expr R) → List (Slot R) → List (Slot R) → Step R (List (Slot R))
  | [], _, _ => pure []
  | e :: es, params, bindings => do
    let x ← e.steps ints params bindings
    let xs ← stepsOfList ints es params bindings
    pure (x :: xs)

end

end Expr

end LogDensity
