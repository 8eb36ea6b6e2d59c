import LogDensity.Evaluation.Differentiate
import LogDensity.Program.Basic

/-!
# Running density programs

An `Interpretation` says what the numbers of a program are and how the operations act on them.
There are two: `plain`, where the numbers are scalars, and `recorded`, where they are dual numbers
whose operations are recorded on a tape. `Program.run` carries a program out under either; the
results so far are kept in order, and a slot stands for the result it names (for zero, if there is
none).
-/

namespace LogDensity

/-- The numbers `V` that a program over scalars `R` computes with. -/
structure Interpretation (R V : Type) where
  primal : V → R
  constant : R → V
  unary : Unary → V → Run R V
  binary : Binary → V → V → Run R V

namespace Interpretation

variable {R : Type} [Scalar R]

/-- Numbers are scalars. -/
def plain : Interpretation R R where
  primal x := x
  constant x := x
  unary f x := pure (f.value x)
  binary f x y := pure (f.value x y)

/-- Numbers are dual numbers on a tape of the workspace. -/
def recorded (home : Home) : Interpretation R (Dual R) where
  primal := Dual.value
  constant := Dual.constant
  unary f x := Run.onTape home fun t => Dual.unary t f x
  binary f x y := Run.onTape home fun t => Dual.binary t f x y

/-- The number that a slot stands for. -/
def fetch {V : Type} (I : Interpretation R V) (env : Array V) (x : Slot R) : V :=
  env[x.index]?.getD (I.constant 0)

/-- The slot of the next result. -/
def slot {V : Type} (I : Interpretation R V) (env : Array V) (v : V) : Slot R :=
  ⟨env.size, I.primal v⟩

end Interpretation

namespace Program

variable {R : Type} [Scalar R]

/-- Carries out a program on the results `env` so far. -/
def run {V : Type} (I : Interpretation R V) (env : Array V) : Program R → Run R V
  | result x => pure (I.fetch env x)
  | constant c next =>
    let v := I.constant c
    (next (I.slot env v)).run I (env.push v)
  | unary f x next => do
    let v ← I.unary f (I.fetch env x)
    (next (I.slot env v)).run I (env.push v)
  | binary f x y next => do
    let v ← I.binary f (I.fetch env x) (I.fetch env y)
    (next (I.slot env v)).run I (env.push v)
  | write text next => do
    let taken ← Run.write text
    (next taken).run I env
  | active next => do
    let kept ← Run.active
    (next kept).run I env
  | nested name size values body next => do
    let (value, partials) ← Run.silently <| differentiate .common name size values fun vars =>
      body.run (.recorded .common) vars.toArray
    (next value partials).run I env
  | fail e => Run.fail e
  | halt b => Run.halt b

end Program

/-- The slots of the numbers that a program starts with. -/
def Interpretation.slots {R V : Type} (I : Interpretation R V) (xs : List V) : List (Slot R) :=
  xs.zipIdx.map fun (x, i) => ⟨i, I.primal x⟩

end LogDensity
