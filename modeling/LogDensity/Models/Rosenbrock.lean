import LogDensity.Model.Basic

/-!
# The Rosenbrock density

The log density `-(100 (y - x²)² + (1 - x)²)` in two dimensions, as a virtual model with only the
required entries, so that every mode is the plain one.
-/

namespace LogDensity.Rosenbrock

variable {R : Type} [Scalar R]

/-- The element at a position; a breach beyond the end. -/
def element (xs : List R) (i : Nat) : Outcome R :=
  match xs[i]? with
  | some x => .ok x
  | none => .error (.breach (.indexOutOfRange xs.length i))

/-- The log density. -/
def logDensity (xs : List R) : Outcome R := do
  let x ← element xs 0
  let y ← element xs 1
  return -(((100 : Int) : R) * power (y - x * x) 2 + power (1 - x) 2)

/-- Its gradient. -/
def partials (xs : List R) : Outcome (List R) := do
  let x ← element xs 0
  let y ← element xs 1
  return [((400 : Int) : R) * x * (y - x * x) + ((2 : Int) : R) * (1 - x),
    ((-200 : Int) : R) * (y - x * x)]

/-- The parameters `x` and `y`, unconstrained. -/
def space : ParameterSpace where
  name := "rosenbrock"
  size := 2
  quantities := ["xy"]
  dims := [[2]]
  constrainedNames _ _ := ["xy.1", "xy.2"]
  readInits c := pure ((c.checkedValues "xy" 2).mapError .error)
  writeArray xs _ _ s :=
    pure (firstOf 2 xs, s)

/-- The model. -/
def model : Model R where
  space
  density := .virtual {
    plain xs := pure (logDensity xs)
    gradient _ xs buffer :=
      pure <|
        match partials xs with
        | .ok g => (g, logDensity xs)
        | .error s => (buffer, .error s) }

end LogDensity.Rosenbrock
