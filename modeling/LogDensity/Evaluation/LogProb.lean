import LogDensity.Model.Basic

/-!
# Evaluating the density of a model

`Model.logProb` computes the log density at given parameters, and `Model.logProbGrad` computes it
with its gradient, which goes into a buffer of the caller. A templated model is evaluated on dual
numbers in a scope of a tape, and needs as many parameters as it has; further ones are not looked
at. A virtual model is called at its entry point for the mode and the container. Text of the
density goes where the outlet of the workspace says.
-/

namespace LogDensity

variable {R : Type} [Scalar R]

/-- Carries out the program of a density on given parameters. -/
def runDensity {V : Type} (I : Interpretation R V)
    (program : Mode → List (Slot R) → List Int → Program R) (mode : Mode) (ints : List Int)
    (xs : List V) : Run R V :=
  (program mode (I.slots xs) ints).run I xs.toArray

namespace Model

/-- The log density. -/
def logProb {P : Type → Type} [Container P] (m : Model R) (params : P R) (ints : List Int)
    (mode : Mode) : Run R R :=
  match m.density with
  | .templated program => do
    let xs ← Run.needed m.name m.size (Container.toList params)
    valueAt .common xs fun vars =>
      Run.routed (runDensity (.recorded .common) program mode ints vars)
  | .virtual entries => Run.routed (Container.entry entries mode params).run

/-- The log density up to a constant. -/
def logProbPropto {P : Type → Type} [Container P] (m : Model R) (params : P R) (ints : List Int)
    (jacobian : Bool) : Run R R :=
  m.logProb params ints ⟨true, jacobian⟩

/-- The log density, with its gradient written to the buffer. For a templated model the buffer is
written only if the evaluation succeeds. -/
def logProbGrad {P : Type → Type} [Container P] (m : Model R) (home : Home) (params : P R)
    (ints : List Int) (mode : Mode) (buffer : P R) : Action R (P R × Outcome R) :=
  match m.density with
  | .templated program => fun w =>
    let evaluation :=
      differentiate home m.name m.size (Container.toList params) fun vars =>
        Run.routed (runDensity (.recorded home) program mode ints vars)
    match evaluation w with
    | (.ok (value, partials), w) => ((Container.overwrite buffer partials, .ok value), w)
    | (.error s, w) => ((buffer, .error s), w)
  | .virtual entries =>
    Action.routed (fun a => isBreach a.2) (Container.gradient entries mode params buffer).run

/-- The log density and its gradient. -/
def valueAndGradient (m : Model R) (params : List R) (ints : List Int) (mode : Mode) :
    Run R (R × List R) := fun w =>
  match m.logProbGrad .common params ints mode [] w with
  | ((partials, .ok value), w) => (.ok (value, partials), w)
  | ((_, .error s), w) => (.error s, w)

/-- The log density on numbers of any interpretation, which only a templated model has. -/
def logProbScalar {V : Type} (m : Model R) (I : Interpretation R V) (xs : List V)
    (ints : List Int) (mode : Mode) : Run R V :=
  match m.density with
  | .templated program => runDensity I program mode ints xs
  | .virtual _ =>
    Run.fail (.configuration m.name "a log density generic over the scalar type")

end Model

end LogDensity
