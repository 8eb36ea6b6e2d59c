import LogDensity.Model.Basic

/-!
# A model that shows which entry was called

Each of the entries of this virtual model returns a value of its own, and the flat ones also write
their name. The gradient entries return the flags of the mode.
-/

namespace LogDensity.Mock

variable {R : Type} [Scalar R]

/-- The value of the flat entry of a mode. -/
def flatValue (mode : Mode) : Int :=
  match mode.propto, mode.jacobian with
  | false, false => 1
  | false, true => 2
  | true, false => 3
  | true, true => 4

/-- The value of the dense entry of a mode. -/
def denseValue (mode : Mode) : Int :=
  10 * flatValue mode

/-- The name of the flat entry of a mode. -/
def entryName (mode : Mode) : String :=
  match mode.propto, mode.jacobian with
  | false, false => "log_prob"
  | false, true => "log_prob_jacobian"
  | true, false => "log_prob_propto"
  | true, true => "log_prob_propto_jacobian"

/-- The flat entry of a mode. -/
def flat (mode : Mode) : Report (Outcome R) := do
  Report.say s!"{entryName mode};"
  pure (.ok (flatValue mode : R))

/-- The flags of a mode as numbers. -/
def flags (scale : R) (mode : Mode) : List R :=
  [if mode.propto then scale else 0, if mode.jacobian then scale else 0]

/-- One parameter, unconstrained. -/
def space : ParameterSpace where
  name := "mock"
  info := ["mock build"]
  size := 1
  quantities := ["theta"]
  dims := [[]]
  constrainedNames _ _ := ["theta"]
  readInits c := pure ((c.checkedValues "theta" 1).mapError .error)
  writeArray xs _ _ s :=
    pure (firstOf 1 xs, s)

/-- The model. -/
def model : Model R where
  space
  density := .virtual {
    plain _ := flat ⟨false, false⟩
    jacobian _ := flat ⟨false, true⟩
    propto _ := flat ⟨true, false⟩
    proptoJacobian _ := flat ⟨true, true⟩
    plainDense _ := pure (.ok (denseValue ⟨false, false⟩ : R))
    jacobianDense _ := pure (.ok (denseValue ⟨false, true⟩ : R))
    proptoDense _ := pure (.ok (denseValue ⟨true, false⟩ : R))
    proptoJacobianDense _ := pure (.ok (denseValue ⟨true, true⟩ : R))
    gradient mode _ _ := do
      let outcome ← flat mode
      pure (flags 1 mode, outcome)
    gradientDense mode _ _ :=
      pure (Dense.contiguous (flags ((10 : Int) : R) mode), .ok (denseValue mode : R)) }

end LogDensity.Mock
