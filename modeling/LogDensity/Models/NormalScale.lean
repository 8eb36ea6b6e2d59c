import LogDensity.Draws.StandardNormal
import LogDensity.Model.Basic
import LogDensity.Program.Step
import LogDensity.Scalar.Datum

/-!
# Normal data with unknown location and scale

Observations are normal with mean `mu` and standard deviation `sigma`, sampled as the logarithm of
`sigma`. The transformed parameter is the variance, the generated quantity a new observation. A
chatty model reports its scale whenever its density is evaluated.
-/

namespace LogDensity.NormalScale

variable {R : Type} [Scalar R] [Printable R]

/-- Subtracts half the square of the standardised observation from the log density. -/
def observe (mu sigma lp : Slot R) (y : R) : Step R (Slot R) := do
  let z ← Step.div (← Step.sub (← Step.constant y) mu) sigma
  Step.sub lp (← Step.mul (← Step.mul (← Step.constant half) z) z)

/-- The density program. -/
def program (ys : List R) (chatty : Bool) (mode : Mode) (params : List (Slot R)) (_ : List Int) :
    Program R :=
  Step.toProgram do
    let mu ← Step.element params 0
    let logSigma ← Step.element params 1
    let sigma ← Step.unary .exp logSigma
    if chatty then
      Step.write s!"sigma = {Printable.fixed 3 sigma.primal}"
    let n : R := ((ys.length : Int) : R)
    let lp ← Step.mul (← Step.neg logSigma) (← Step.constant n)
    let lp ← ys.foldlM (observe mu sigma) lp
    let lp ←
      if mode.propto then pure lp
      else
        let twoPi : R := ((2 : Int) : R) * Elementary.pi
        Step.sub lp (← Step.constant (half * n * Elementary.ln twoPi))
    if mode.jacobian then Step.add lp logSigma else pure lp

/-- The names of all quantities asked for. -/
def names (sigma : String) (transformed generated : Bool) : List String :=
  ["mu", sigma] ++ (if transformed then ["variance"] else []) ++
    (if generated then ["y_rep"] else [])

/-- Unconstrained values from a context. -/
def readInits (c : Context) : Outcome (List Float) := do
  let mu ← (c.checkedValues "mu" 1).mapError .error
  let sigma ← (c.checkedValues "sigma" 1).mapError .error
  match mu, sigma with
  | [mu], [sigma] =>
    if sigma ≤ 0 then
      .error (.error (.domain s!"sigma must be positive, got {Binary64.display sigma}"))
    else .ok [mu, sigma.log]
  | _, _ => .error (.breach (.indexOutOfRange 0 0))

/-- A new observation; the scale has to be finite. -/
def replicate (mu sigma : Float) (s : WordSource) : Outcome Float × WordSource :=
  if sigma.isFinite then
    let (w, s) := s.next
    (.ok (mu + sigma * StandardNormal.draw w), s)
  else
    (.error (.error (.domain "variation parameter is non-finite in (log)normal distribution")), s)

/-- Constrained values. -/
def writeArray (xs : List Float) (transformed generated : Bool) (s : WordSource) :
    Outcome (List Float) × WordSource :=
  match xs with
  | mu :: logSigma :: _ =>
    let sigma := logSigma.exp
    let values := [mu, sigma] ++ (if transformed then [sigma * sigma] else [])
    if generated then
      let (y, s) := replicate mu sigma s
      (y.map fun y => values ++ [y], s)
    else (.ok values, s)
  | xs => (.error (.breach (.indexOutOfRange xs.length xs.length)), s)

/-- The location and the logarithm of the scale. -/
def space : ParameterSpace where
  name := "normal_scale"
  size := 2
  quantities := ["mu", "sigma", "variance", "y_rep"]
  dims := [[], [], [], []]
  constrainedNames := names "sigma"
  unconstrainedNames := names "log_sigma"
  readInits c := pure (readInits c)
  writeArray xs transformed generated s := pure (writeArray xs transformed generated s)

/-- The model of given observations. -/
def model (ys : List Datum) (chatty : Bool) : Model Datum where
  space
  density := .templated (program ys chatty)

end LogDensity.NormalScale
