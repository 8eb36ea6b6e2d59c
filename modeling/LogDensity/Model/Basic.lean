import LogDensity.Context.Basic
import LogDensity.Dense
import LogDensity.Mode
import LogDensity.Program.Report
import LogDensity.Program.Run
import LogDensity.Words

/-!
# Models

A model has a `ParameterSpace`, which names its parameters and maps between constrained and
unconstrained values, and a `Density` of one of two kinds. The density of a templated model is one
program for all modes; it is evaluated on plain or on dual numbers. A virtual model brings its own
entry points, one per mode and container, and one that delivers its own gradient; only the plain
density and the gradient are required, the others have defaults.
-/

namespace LogDensity

/-- The parameters of a model, whatever its density. -/
structure ParameterSpace where
  /-- The name of the model. -/
  name : String
  /-- Notes on how the model was built. -/
  info : List String := []
  /-- The number of continuous unconstrained parameters. -/
  size : Nat
  /-- The inclusive ranges of the discrete parameters. -/
  ranges : List (Int × Int) := []
  /-- The names of the declared quantities. -/
  quantities : List String
  /-- The dimensions of the declared quantities. -/
  dims : List (List Nat)
  /-- Flat names of constrained values, with transformed parameters and generated quantities if
  asked for. -/
  constrainedNames : Bool → Bool → List String
  /-- Flat names of unconstrained values. -/
  unconstrainedNames : Bool → Bool → List String := constrainedNames
  /-- Unconstrained initial values from a context. -/
  readInits : Context → Report (Outcome (List Float))
  /-- Constrained values, with transformed parameters and generated quantities if asked for. -/
  writeArray : List Float → Bool → Bool → WordSource → Report (Outcome (List Float) × WordSource)

/-- The first `n` values; fewer are a breach. -/
def firstOf {α : Type} (n : Nat) (xs : List α) : Outcome (List α) :=
  if xs.length < n then .error (.breach (.sliceOutOfRange n xs.length)) else .ok (xs.take n)

/-- The range of a discrete parameter. -/
def ParameterSpace.range (s : ParameterSpace) (i : Nat) : Except EvalError (Int × Int) :=
  match s.ranges[i]? with
  | some r => .ok r
  | none => .error (.outOfRange i s.ranges.length)

/-- A dense gradient entry made of a flat one: it works on a buffer of its own, which replaces the
caller's if the evaluation succeeds. -/
def denseGradient {R : Type} (gradient : Mode → List R → List R → Report (List R × Outcome R))
    (mode : Mode) (xs buffer : Dense R) : Report (Dense R × Outcome R) := do
  let (flat, outcome) ← gradient mode xs.toList []
  pure (match outcome with | .ok _ => Dense.contiguous flat | .error _ => buffer, outcome)

/-- The entry points of a virtual model. The gradient entries are given a buffer and return it,
changed or not, whatever the outcome. -/
structure Virtual (R : Type) where
  plain : List R → Report (Outcome R)
  jacobian : List R → Report (Outcome R) := plain
  propto : List R → Report (Outcome R) := plain
  proptoJacobian : List R → Report (Outcome R) := jacobian
  plainDense : Dense R → Report (Outcome R) := fun xs => plain xs.toList
  jacobianDense : Dense R → Report (Outcome R) := fun xs => jacobian xs.toList
  proptoDense : Dense R → Report (Outcome R) := fun xs => propto xs.toList
  proptoJacobianDense : Dense R → Report (Outcome R) := fun xs => proptoJacobian xs.toList
  gradient : Mode → List R → List R → Report (List R × Outcome R)
  gradientDense : Mode → Dense R → Dense R → Report (Dense R × Outcome R) := denseGradient gradient

namespace Virtual

variable {R : Type}

/-- The flat entry point of a mode. -/
def entry (v : Virtual R) (mode : Mode) : List R → Report (Outcome R) :=
  match mode.propto, mode.jacobian with
  | false, false => v.plain
  | false, true => v.jacobian
  | true, false => v.propto
  | true, true => v.proptoJacobian

/-- The dense entry point of a mode. -/
def entryDense (v : Virtual R) (mode : Mode) : Dense R → Report (Outcome R) :=
  match mode.propto, mode.jacobian with
  | false, false => v.plainDense
  | false, true => v.jacobianDense
  | true, false => v.proptoDense
  | true, true => v.proptoJacobianDense

end Virtual

/-- The density of a model. -/
inductive Density (R : Type)
  /-- One program, given the mode, the parameters and the discrete parameters. -/
  | templated (program : Mode → List (Slot R) → List Int → Program R)
  | virtual (entries : Virtual R)

/-- The kind of a density. -/
def Density.kind {R : Type} : Density R → DensityKind
  | templated _ => .templated
  | virtual _ => .virtual

/-- A parameter space with a density on it. -/
structure Model (R : Type) where
  space : ParameterSpace
  density : Density R

namespace Model

variable {R : Type}

/-- The name of a model. -/
def name (m : Model R) : String :=
  m.space.name

/-- The number of continuous parameters. -/
def size (m : Model R) : Nat :=
  m.space.size

/-- The kind of its density. -/
def kind (m : Model R) : DensityKind :=
  m.density.kind

end Model

/-- Containers of parameters and of gradients: flat lists and dense arrays. A container decides
which entry points of a virtual model are used. -/
class Container (P : Type → Type) where
  toList : {R : Type} → P R → List R
  /-- Replaces the contents. -/
  overwrite : {R : Type} → P R → List R → P R
  entry : {R : Type} → Virtual R → Mode → P R → Report (Outcome R)
  gradient : {R : Type} → Virtual R → Mode → P R → P R → Report (P R × Outcome R)

/-- The contents of a container as it is overwritten again and again, from the start on. -/
def Container.history {P : Type → Type} [Container P] {R : Type} (p : P R) :
    List (List R) → List (P R)
  | [] => [p]
  | xs :: rest => p :: Container.history (Container.overwrite p xs) rest

instance : Container List where
  toList xs := xs
  overwrite _ xs := xs
  entry := Virtual.entry
  gradient v := v.gradient

instance : Container Dense where
  toList := Dense.toList
  overwrite := Dense.overwrite
  entry := Virtual.entryDense
  gradient v := v.gradientDense

end LogDensity
