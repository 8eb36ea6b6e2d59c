import LogDensity.Draws.Sheet
import LogDensity.Draws.Uniform
import LogDensity.Evaluation.Functional
import LogDensity.Session.Held

/-!
# Sessions

A session is what a caller keeps from one evaluation to the next: the workspace with its tapes, a
flat and a dense gradient buffer, a sheet for draws, and a source of words. A call chooses where
text goes (`Session.begin`) and then evaluates; parameters come in a container (`Arguments`), which
also decides which of the two buffers a gradient is written to.
-/

namespace LogDensity

/-- Parameters in a container. -/
inductive Arguments (R : Type)
  | flat (xs : List R)
  | dense (xs : Dense R)

/-- What is kept between evaluations. -/
structure Session (R : Type) where
  workspace : Workspace R := {}
  flat : List R := []
  dense : Dense R := Dense.contiguous []
  sheet : Sheet := {}
  source : WordSource

namespace Session

variable {R : Type} [Scalar R]

/-- Begins a call: the journal is empty, no interrupt was asked yet, and text goes to the outlet. -/
def begin (s : Session R) (outlet : Diagnostics) : Session R :=
  { s with workspace := { s.workspace with outlet, journal := #[], polls := 0 } }

/-- Carries out an action on the workspace of the session. -/
def act {α : Type} (s : Session R) (action : Action R α) : α × Session R :=
  let (a, w) := action s.workspace
  (a, { s with workspace := w })

/-- Carries out an action, with a computation of so many variables held across it if asked for. -/
def actHolding {α : Type} (s : Session R) (home : Home) (held : Option Nat) (action : Action R α) :
    (α × Option (Outcome (Held R))) × Session R :=
  match held with
  | none =>
    let (a, s) := s.act action
    ((a, none), s)
  | some k =>
    let ((a, h), s) := s.act (Action.holding home k action)
    ((a, some h), s)

/-- The log density. -/
def logProb (s : Session R) (m : Model R) (params : Arguments R) (ints : List Int) (mode : Mode)
    (held : Option Nat) : (Outcome R × Option (Outcome (Held R))) × Session R :=
  s.actHolding .common held <|
    match params with
    | .flat xs => m.logProb xs ints mode
    | .dense xs => m.logProb xs ints mode

/-- The log density up to a constant. -/
def logProbPropto (s : Session R) (m : Model R) (params : Arguments R) (ints : List Int)
    (jacobian : Bool) (held : Option Nat) :
    (Outcome R × Option (Outcome (Held R))) × Session R :=
  s.actHolding .common held <|
    match params with
    | .flat xs => m.logProbPropto xs ints jacobian
    | .dense xs => m.logProbPropto xs ints jacobian

/-- The log density, with its gradient written to the buffer for the container. -/
def logProbGrad (s : Session R) (m : Model R) (home : Home) (params : Arguments R)
    (ints : List Int) (mode : Mode) (held : Option Nat) :
    (Outcome R × Option (Outcome (Held R))) × Session R :=
  match params with
  | .flat xs =>
    let (((buffer, outcome), h), s) :=
      s.actHolding home held (m.logProbGrad home xs ints mode s.flat)
    ((outcome, h), { s with flat := buffer })
  | .dense xs =>
    let (((buffer, outcome), h), s) :=
      s.actHolding home held (m.logProbGrad home xs ints mode s.dense)
    ((outcome, h), { s with dense := buffer })

/-- Replaces the buffer for a container. -/
def setBuffer (s : Session R) : Arguments R → Session R
  | .flat xs => { s with flat := xs }
  | .dense xs => { s with dense := xs }

/-- The contents of the buffer for a container. -/
def buffer (s : Session R) : Arguments R → List R
  | .flat _ => s.flat
  | .dense _ => s.dense.toList

/-- Calls a functional on plain numbers, once per list of arguments. -/
def callEach (s : Session R) (f : Functional R) : List (List R) → List (Outcome R) × Session R
  | [] => ([], s)
  | xs :: rest =>
    let (y, s) := s.act (f.call .plain xs)
    let (ys, s) := s.callEach f rest
    (y :: ys, s)

/-- Traces a functional on the caller's own tape, once per list of arguments. -/
def traceEach (s : Session R) (f : Functional R) :
    List (List R) → List (Outcome (Traced R)) × Session R
  | [] => ([], s)
  | xs :: rest =>
    let (y, s) := s.act (f.trace xs)
    let (ys, s) := s.traceEach f rest
    (y :: ys, s)

/-- Unconstrained initial values from a context. -/
def readInits (s : Session R) (space : ParameterSpace) (c : Context) :
    Outcome (List Float) × Session R :=
  s.act (space.readInits c).run

/-- Random initial values. -/
def randomInits (s : Session R) (space : ParameterSpace) (radius : Float) :
    Except EvalError (List Float) × Session R :=
  let (outcome, source) := LogDensity.randomInits space radius s.source
  (outcome, { s with source })

/-- Writes a draw to the sheet. -/
def writeDraw (s : Session R) (space : ParameterSpace) (params : List Float)
    (transformed generated : Bool) : Outcome (List Float) × Session R :=
  let ((outcome, source, sheet), s) :=
    s.act (LogDensity.writeDraw space s.source params transformed generated s.sheet)
  (outcome, { s with source, sheet })

end Session

end LogDensity
