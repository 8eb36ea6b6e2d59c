import LogDensity.Evaluation.LogProb

/-!
# Densities as functions

A templated model is a function of its parameters alone once the mode is fixed: up to a constant,
with the Jacobian term, and without discrete parameters. `Functional` is that function, for numbers
of any interpretation. `Model.gradient` gives value and gradient of a model in this mode, for both
kinds of model.
-/

namespace LogDensity

variable {R : Type} [Scalar R]

/-- A model whose density can be called on numbers of any interpretation. -/
structure Functional (R : Type) where
  model : Model R

/-- The result of a call on variables: its value, whether it depends on any of them, the length of
the tape, and the derivatives. -/
structure Traced (R : Type) where
  value : R
  isConstant : Bool
  size : Nat
  partials : List R

namespace Functional

/-- The functional of a model; a virtual model has none. -/
def ofModel (m : Model R) : Except EvalError (Functional R) :=
  match m.kind with
  | .templated => .ok ⟨m⟩
  | .virtual => .error (.capabilityMismatch m.name "ModelFunctional" .templated .virtual)

/-- The log density at the given numbers, however many there are. -/
def call {V : Type} (f : Functional R) (I : Interpretation R V) (xs : List V) : Run R V :=
  f.model.logProbScalar I xs [] .proptoJacobian

/-- A call on fresh variables of the caller's own tape, with all that is found of the result. -/
def trace (f : Functional R) (xs : List R) : Run R (Traced R) :=
  Run.withScope .own fun mark => do
    let vars ← Run.leaves .own xs
    let y ← f.call (.recorded .own) vars
    let size ← Run.asks fun w => (w.tape .own).size
    let partials ← Run.gradient .own mark y vars
    pure ⟨y.value, y.isConstant, size, partials⟩

/-- Value and gradient at the given values, on the common tape. -/
def gradient (f : Functional R) (xs : List R) : Run R (R × List R) :=
  gradientAt .common xs (f.call (.recorded .common)) fun _ => pure ()

end Functional

/-- Value and gradient of a model up to a constant, with the Jacobian term; the text of the density
goes to the logger. A templated model is called as a functional, on all the values given. -/
def Model.gradient (m : Model R) (xs : List R) : Run R (R × List R) :=
  Run.collected <|
    match Functional.ofModel m with
    | .ok f => f.gradient xs
    | .error _ => m.valueAndGradient xs [] .proptoJacobian

end LogDensity
