import LogDensity.Model.Basic
import LogDensity.Program.Step
import LogDensity.Scalar.Datum

/-!
# A model that fails above a limit

The log density is `-x²`; above the limit the model says so, in text and as an error.
-/

namespace LogDensity.Failing

variable {R : Type} [Scalar R] [Printable R]

/-- The error above the limit. -/
def aboveLimit : EvalError :=
  .domain "x is above the limit"

/-- The density program. -/
def program (limit : R) (_ : Mode) (params : List (Slot R)) (_ : List Int) : Program R :=
  Step.toProgram do
    let x ← Step.element params 0
    let lp ← Step.neg (← Step.mul x x)
    if Elementary.less limit x.primal then
      Step.write s!"x = {Printable.display x.primal} is above {Printable.display limit}"
      Step.fail aboveLimit
    else
      pure lp

/-- One parameter, unconstrained. -/
def space (limit : Float) : ParameterSpace where
  name := "failing"
  size := 1
  quantities := ["x"]
  dims := [[]]
  constrainedNames _ _ := ["x"]
  readInits c := pure ((c.checkedValues "x" 1).mapError .error)
  writeArray xs _ _ s :=
    pure <|
      match xs with
      | [] => (.error (.breach (.indexOutOfRange 0 0)), s)
      | x :: _ => (if limit < x then .error (.error aboveLimit) else .ok [x], s)

/-- The model. -/
def model (limit : Float) : Model Datum where
  space := space limit
  density := .templated (program (limit : Datum))

end LogDensity.Failing
