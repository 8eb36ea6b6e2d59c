import LogDensity.Model.Basic

/-!
# Quadratic forms with chosen entry points

A family of virtual models with the log density `c₁ x₁² + … + cₙ xₙ²`. Each entry point adds an
offset of its own, so that the value shows which one was called; it may also write its name with
the number of parameters it was given, and it may be made to fail. Which of the optional entry
points a model has is part of its description; the others are the defaults.
-/

namespace LogDensity

/-- The entry points of virtual models. -/
inductive EntryPoint
  | plain
  | jacobian
  | propto
  | proptoJacobian
  | plainDense
  | jacobianDense
  | proptoDense
  | proptoJacobianDense
  | gradient
  | gradientDense
  deriving DecidableEq, Repr

/-- The name of an entry point. -/
def EntryPoint.name : EntryPoint → String
  | plain => "log_prob"
  | jacobian => "log_prob_jacobian"
  | propto => "log_prob_propto"
  | proptoJacobian => "log_prob_propto_jacobian"
  | plainDense => "log_prob_dense"
  | jacobianDense => "log_prob_jacobian_dense"
  | proptoDense => "log_prob_propto_dense"
  | proptoJacobianDense => "log_prob_propto_jacobian_dense"
  | gradient => "log_prob_grad"
  | gradientDense => "log_prob_grad_dense"

/-- A quadratic form and its entry points. -/
structure Quadratic (R : Type) where
  name : String := "virt"
  coefficients : List R
  /-- Whether entry points write their name. -/
  talks : Bool := false
  /-- The names of entry points that fail. -/
  failing : List String := []
  /-- The entry points that are not the defaults. -/
  overrides : List EntryPoint := []

namespace Quadratic

variable {R : Type} [Scalar R]

/-- What the entry points of densities add to the form. -/
def offset : EntryPoint → Int
  | .plain => 0
  | .jacobian => 1
  | .propto => 2
  | .proptoJacobian => 3
  | .plainDense => 10
  | .jacobianDense => 11
  | .proptoDense => 12
  | .proptoJacobianDense => 13
  | .gradient => 0
  | .gradientDense => 0

/-- What the gradient entries add to the form in a mode; `unit` is a quarter or ten times that. -/
def modeOffset (unit : R) (mode : Mode) : R :=
  (if mode.propto then unit else 0) + (if mode.jacobian then unit + unit else 0)

/-- One quarter. -/
def quarter : R :=
  half * half

/-- The quadratic form, over as many terms as there are both coefficients and values. -/
def form (q : Quadratic R) (xs : List R) : R :=
  (q.coefficients.zip xs).foldl (fun s (c, x) => s + c * x * x) 0

/-- Its gradient, scaled. -/
def partials (q : Quadratic R) (scale : R) (xs : List R) : List R :=
  (q.coefficients.zip xs).map fun (c, x) => scale * (((2 : Int) : R) * c * x)

/-- An entry point. -/
def call (q : Quadratic R) (e : EntryPoint) (offset : R) (xs : List R) :
    Report (Outcome R) := do
  if q.talks then
    Report.say s!"{e.name}({xs.length});"
  if q.failing.contains e.name then
    pure (.error (.error (.domain s!"{e.name} failed")))
  else
    pure (.ok (q.form xs + offset))

/-- The entry point if the model has one of its own, and the default otherwise. -/
def choose (q : Quadratic R) (e : EntryPoint) (default : List R → Report (Outcome R)) :
    List R → Report (Outcome R) :=
  if q.overrides.contains e then q.call e (offset e : R) else default

/-- The flat gradient entry: the buffer is written before the density is evaluated. -/
def gradient (q : Quadratic R) (mode : Mode) (xs _buffer : List R) :
    Report (List R × Outcome R) := do
  let outcome ← q.call .gradient (modeOffset quarter mode) xs
  pure (q.partials 1 xs, outcome)

/-- The dense gradient entry of a model that has one. -/
def gradientDense (q : Quadratic R) (mode : Mode) (xs _buffer : Dense R) :
    Report (Dense R × Outcome R) := do
  let outcome ← q.call .gradientDense (modeOffset (((10 : Int) : R) * quarter) mode) xs.toList
  pure (Dense.contiguous (q.partials ((10 : Int) : R) xs.toList), outcome)

/-- The entry points of the model. -/
def entries (q : Quadratic R) : Virtual R :=
  let plain := q.call .plain (offset .plain : R)
  let jacobian := q.choose .jacobian plain
  let propto := q.choose .propto plain
  let proptoJacobian := q.choose .proptoJacobian jacobian
  { plain
    jacobian
    propto
    proptoJacobian
    plainDense xs := q.choose .plainDense plain xs.toList
    jacobianDense xs := q.choose .jacobianDense jacobian xs.toList
    proptoDense xs := q.choose .proptoDense propto xs.toList
    proptoJacobianDense xs := q.choose .proptoJacobianDense proptoJacobian xs.toList
    gradient := q.gradient
    gradientDense :=
      if q.overrides.contains .gradientDense then q.gradientDense else denseGradient q.gradient }

/-- One vector of parameters, unconstrained. -/
def space (q : Quadratic R) : ParameterSpace where
  name := q.name
  size := q.coefficients.length
  quantities := ["q"]
  dims := [[q.coefficients.length]]
  constrainedNames _ _ := (List.range q.coefficients.length).map fun i => s!"q.{i + 1}"
  readInits c := pure ((c.checkedValues "q" q.coefficients.length).mapError .error)
  writeArray xs _ _ s := pure (.ok xs, s)

/-- The model. -/
def model (q : Quadratic R) : Model R where
  space := q.space
  density := .virtual q.entries

end Quadratic

end LogDensity
