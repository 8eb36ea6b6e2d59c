import LogDensity.Evaluation.Differentiate

/-!
# Work that is held across a call

A caller may have a computation of its own on a tape while it evaluates a density. `Run.product`
is such a computation, and `Action.holding` carries out an action while the product waits on the
tape: what is then found of it shows whether the action left the tape as it was.
-/

namespace LogDensity

variable {R : Type} [Scalar R]

/-- What is found of a held computation: the length of the tape, and the derivatives. -/
structure Held (R : Type) where
  size : Nat
  partials : List R

/-- Records one fresh variable. -/
def Run.leaf (home : Home) (x : R) : Run R (Dual R) :=
  onTape home fun t =>
    let (v, t) := Dual.leaf t x
    (.ok v, t)

/-- The product of numbers on a tape, from a new variable of value one on. -/
def Run.product (home : Home) (xs : List (Dual R)) : Run R (Dual R) := do
  let one ← Run.leaf home 1
  xs.foldlM (fun y x => Run.onTape home fun t => Dual.binary t .mul y x) one

/-- Carries out an action while a scope of the tape holds the product of `k` variables of value
two. -/
def Action.holding {α : Type} (home : Home) (k : Nat) (act : Action R α) :
    Action R (α × Outcome (Held R)) :=
  Action.withScope home fun mark w =>
    let hold : Run R (List (Dual R) × Dual R) := do
      let vars ← Run.leaves home (List.replicate k ((2 : Int) : R))
      return (vars, ← Run.product home vars)
    let (opened, w) := hold w
    let (a, w) := act w
    let look : Run R (Held R) := do
      let (vars, y) ← Run.ofExcept opened
      let size ← Run.asks fun w => (w.tape home).size
      return ⟨size, ← Run.gradient home mark y vars⟩
    let (held, w) := look w
    ((a, held), w)

end LogDensity
