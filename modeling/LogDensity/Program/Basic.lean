import LogDensity.Fault
import LogDensity.Scalar.Basic

/-!
# Density programs

The density of a templated model is one program that can be run on plain scalars and on dual
numbers alike. `Program` is that program as data: a tree of steps, each naming an operation on
earlier results and what to do next with the new one. A result is handed on as a `Slot`: its number
among the results so far, and its primal value, on which the program may branch. Beside computing,
a program can write text, ask whether text is kept, evaluate another density with its gradient,
fail, or break a contract.
-/

namespace LogDensity

/-- A result of an earlier step. -/
structure Slot (R : Type) where
  index : Nat
  primal : R

/-- A density as a tree of steps. -/
inductive Program (R : Type)
  /-- The value of the density. -/
  | result (x : Slot R)
  | constant (c : R) (next : Slot R → Program R)
  | unary (f : Unary) (x : Slot R) (next : Slot R → Program R)
  | binary (f : Binary) (x y : Slot R) (next : Slot R → Program R)
  /-- Writes text; `next` learns whether the stream took it. -/
  | write (text : String) (next : Bool → Program R)
  /-- Asks whether written text is kept. -/
  | active (next : Bool → Program R)
  /-- Evaluates the density of another model, silently and on the common tape, at the given
  values, of which it needs `size`; `next` learns the value and the gradient. The results numbered
  from zero in `body` are the first `size` values. -/
  | nested (name : String) (size : Nat) (values : List R) (body : Program R)
      (next : R → List R → Program R)
  | fail (e : EvalError)
  | halt (b : Breach)

end LogDensity
