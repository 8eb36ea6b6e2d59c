import LogDensity.Decimal.Basic
import LogDensity.Evaluation.LogProb

/-!
# Central differences

`Model.finiteDifference` estimates the gradient of a density from its values on both sides of each
parameter, asking an interrupt before each of them. The parameters are moved in one list, which is
handed on from each of them to the next. `Model.testGradients` compares that estimate with the
gradient of the model, reports both in a table, and counts the entries that differ by more than a
tolerance.
-/

namespace LogDensity

variable {R : Type} [Scalar R]

/-- The distance of a central difference unless told otherwise. -/
def defaultEpsilon [Coe Float R] : R := ((1e-6 : Float) : R)

/-- The error that a gradient test admits unless told otherwise. -/
def defaultTolerance [Coe Float R] : R := ((1e-6 : Float) : R)

namespace Model

/-- The central difference quotient of the parameter `x` at the position `k`, and the parameters
after it: one of them was moved up, then down, and then put back. -/
def quotientInPlace (m : Model R) (ints : List Int) (mode : Mode) (epsilon x : R) (k : Nat)
    (moved : List R) : Run R (R × List R) := do
  let moved := moved.set k (x + epsilon)
  let plus ← m.logProb moved ints mode
  let moved := moved.set k (x - epsilon)
  let minus ← m.logProb moved ints mode
  let moved := moved.set k x
  pure ((plus - minus) / (((2 : Int) : R) * epsilon), moved)

/-- The central difference quotients of parameters at given positions. All of them are moved in the
same list, one after the other. -/
def quotientsInPlace (m : Model R) (interrupt : Nat → Bool) (ints : List Int) (mode : Mode)
    (epsilon : R) : List (R × Nat) → List R → Run R (List R)
  | [], _ => pure []
  | (x, k) :: rest, moved => do
    if ← Run.poll interrupt then
      Run.fail .interrupted
    else
      let (quotient, moved) ← m.quotientInPlace ints mode epsilon x k moved
      let quotients ← m.quotientsInPlace interrupt ints mode epsilon rest moved
      pure (quotient :: quotients)

/-- The central difference quotients of the density, one per parameter that is given. -/
def finiteDifference (m : Model R) (interrupt : Nat → Bool) (params : List R) (ints : List Int)
    (mode : Mode) (epsilon : R) : Run R (List R) :=
  m.quotientsInPlace interrupt ints mode epsilon (params.take m.size).zipIdx params

end Model

/-- One line of the table of a gradient test. -/
structure GradientRow (R : Type) where
  index : Nat
  value : R
  model : R
  finiteDifference : R

namespace GradientRow

/-- How much the two derivatives differ. -/
def error (r : GradientRow R) : R :=
  r.model - r.finiteDifference

/-- Whether they differ by more than a tolerance. -/
def fails (tolerance : R) (r : GradientRow R) : Bool :=
  Elementary.less tolerance (Elementary.abs r.error)

/-- Five right-aligned columns. -/
def columns (a b c d e : String) : String :=
  let wide := Decimal.padLeft 16
  s!" {Decimal.padLeft 10 a} {wide b} {wide c} {wide d} {wide e}"

/-- The heading of the table. -/
def heading : String :=
  columns "param idx" "value" "model" "finite diff" "error"

variable [Printable R]

/-- The line in the table, with six decimals. -/
def text (r : GradientRow R) : String :=
  let decimal := Printable.fixed (R := R) 6
  columns (toString r.index) (decimal r.value) (decimal r.model) (decimal r.finiteDifference)
    (decimal r.error)

/-- The rows for as many parameters as both gradients have. -/
def ofGradients (params model differences : List R) : List (GradientRow R) :=
  (params.zip (model.zip differences)).zipIdx.map fun ((x, g, f), k) => ⟨k, x, g, f⟩

end GradientRow

namespace Model

variable [Printable R]

/-- Compares the gradient of the model with central differences, reports to the logger, and counts
the derivatives that fail. -/
def testGradients (m : Model R) (interrupt : Nat → Bool) (params : List R) (ints : List Int)
    (mode : Mode) (epsilon tolerance : R) : Run R Nat := do
  let (value, partials, differences) ← Run.collected do
    let (value, partials) ← m.valueAndGradient params ints mode
    let differences ← m.finiteDifference interrupt params ints mode epsilon
    pure (value, partials, differences)
  let print := Printable.display (R := R)
  Run.inform
    (s!" Log probability={print value} ({mode.display}, epsilon={print epsilon}, " ++
      s!"error={print tolerance})")
  Run.inform ""
  Run.inform GradientRow.heading
  let rows := GradientRow.ofGradients params partials differences
  rows.forM fun r => Run.inform r.text
  let failed := (rows.filter (GradientRow.fails tolerance)).length
  if 0 < failed then
    Run.note .warn
      (s!"{m.name}: {failed} of {partials.length} gradient coordinates differ from " ++
        s!"finite differences by more than {print tolerance}")
  pure failed

end Model

end LogDensity
