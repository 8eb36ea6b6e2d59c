import LogDensity.Models.Quadratic
import LogDensity.Proofs.Evaluation.Gradient
import LogDensity.Proofs.Program.Report
import LogDensity.Scalar.Datum

/-!
# The buffer of a gradient that fails

A gradient reaches the buffer of the caller on three ways. For a templated model the buffer is
overwritten once the sweep is done. The gradient entry of a virtual model is given the buffer
itself. The default of the dense entry works on a buffer of its own, and replaces the caller's in
the end. On the first and on the third way a failure leaves the buffer as it was; on the second
everything is left to the model.

* `Model.sparesBuffer_iff`: models spare the buffer when they fail, except for virtual models whose
  own gradient entry does not.
* `Model.not_sparesBuffer`: there are such models.
-/

namespace LogDensity

variable {R : Type}

/-- If the gradient entry for a container fails, it returns the buffer that it was given. -/
def Virtual.SparesBuffer (P : Type → Type) [Container P] (v : Virtual R) : Prop :=
  ∀ (mode : Mode) (params buffer : P R) (m : Messages) (e : EvalError),
    ((Container.gradient v mode params buffer).on m).1.2 = .error (.error e) →
      ((Container.gradient v mode params buffer).on m).1.1 = buffer

/-- If the density or its gradient fails, the buffer for the gradient is as it was. -/
def Model.SparesBuffer [Scalar R] (P : Type → Type) [Container P] (m : Model R) : Prop :=
  ∀ (home : Home) (params : P R) (ints : List Int) (mode : Mode) (buffer : P R) (w : Workspace R)
    (e : EvalError), (m.logProbGrad home params ints mode buffer w).1.2 = .error (.error e) →
      (m.logProbGrad home params ints mode buffer w).1.1 = buffer

/-! ## The ways to the buffer -/

/-- The default of the dense gradient entry does what the flat one does with an empty buffer, and
replaces the buffer of the caller if that succeeds. -/
theorem Virtual.gradientDense_on {v : Virtual R} (h : v.gradientDense = denseGradient v.gradient)
    (mode : Mode) (params buffer : Dense R) (m : Messages) :
    let flat := (v.gradient mode params.toList []).on m
    (Container.gradient v mode params buffer).on m =
      ((match flat.1.2 with | .ok _ => Dense.contiguous flat.1.1 | .error _ => buffer, flat.1.2),
        flat.2) := by
  have hentry : Container.gradient v mode params buffer =
      denseGradient v.gradient mode params buffer :=
    congrFun (congrFun (congrFun h mode) params) buffer
  rw [hentry]
  exact Report.on_bind ..

/-- The default of the dense gradient entry spares the buffer, whatever the flat entry does. -/
theorem Virtual.sparesBuffer_of_default {v : Virtual R}
    (h : v.gradientDense = denseGradient v.gradient) : v.SparesBuffer Dense := by
  intro mode params buffer m e hfail
  rw [gradientDense_on h] at hfail ⊢
  simp only at hfail ⊢
  rw [hfail]

namespace Model

variable [Scalar R] {P : Type → Type} [Container P]

/-- The gradient of a virtual model is that of its gradient entry on the stream for its text. -/
theorem logProbGrad_virtual (space : ParameterSpace) (entries : Virtual R) (home : Home)
    (params : P R) (ints : List Int) (mode : Mode) (buffer : P R) (w : Workspace R) :
    let out := (Container.gradient entries mode params buffer).on w.outlet.feed
    (⟨space, .virtual entries⟩ : Model R).logProbGrad home params ints mode buffer w =
      (out.1, w.told out.2 (isBreach out.1.2)) :=
  Report.routed_run ..

/-- A templated model spares the buffer, since nothing is delivered before the sweep is done. -/
theorem sparesBuffer_templated (space : ParameterSpace)
    (program : Mode → List (Slot R) → List Int → Program R) :
    (⟨space, .templated program⟩ : Model R).SparesBuffer P := by
  intro home params ints mode buffer w e hfail
  rw [logProbGrad_templated] at hfail ⊢
  cases hout : (evaluation space program home (Container.toList params) ints mode w).1 with
  | ok p =>
    rw [hout] at hfail
    cases hfail
  | error s => rfl

/-- A virtual model spares the buffer if its gradient entry does. -/
theorem sparesBuffer_virtual (space : ParameterSpace) (entries : Virtual R) :
    (⟨space, .virtual entries⟩ : Model R).SparesBuffer P ↔ entries.SparesBuffer P := by
  constructor
  · intro h mode params buffer m e hfail
    -- a workspace whose text goes to the stream in question
    have hspared := h .common params [] mode buffer { outlet := .stream m } e
    rw [logProbGrad_virtual] at hspared
    exact hspared hfail
  · intro h home params ints mode buffer w e hfail
    rw [logProbGrad_virtual] at hfail ⊢
    exact h mode params buffer w.outlet.feed e hfail

/-- **Which models spare the buffer when they fail.** All templated models do, in every container. A
virtual model does if and only if its gradient entry for the container does, and for dense arrays
it does if it leaves that entry at the default. -/
theorem sparesBuffer_iff (m : Model R) (P : Type → Type) [Container P] :
    (m.SparesBuffer P ↔ ∀ entries, m.density = .virtual entries → entries.SparesBuffer P) ∧
      ((∀ entries, m.density = .virtual entries →
        entries.gradientDense = denseGradient entries.gradient) → m.SparesBuffer Dense) := by
  obtain ⟨space, density⟩ := m
  cases density with
  | templated program =>
    refine ⟨⟨fun _ entries h => ?_, fun _ => sparesBuffer_templated space program⟩,
      fun _ => sparesBuffer_templated space program⟩
    cases h
  | virtual entries =>
    refine ⟨(sparesBuffer_virtual space entries).trans ⟨fun h entries' heq => ?_, fun h => h _ rfl⟩,
      fun h => (sparesBuffer_virtual space entries).2 (Virtual.sparesBuffer_of_default (h _ rfl))⟩
    cases heq
    exact h

/-- A quadratic form whose gradient entry writes its buffer and fails then. -/
theorem not_sparesBuffer : ¬ ∀ m : Model Datum, m.SparesBuffer List := by
  intro h
  let q : Quadratic Datum := { coefficients := [1], failing := ["log_prob_grad"] }
  let seven : Datum := ((7 : Int) : Datum)
  have hspared := h q.model .common [((3 : Int) : Datum)] [] .plain [seven, seven] {}
    (.domain "log_prob_grad failed") rfl
  -- one entry is left of the two
  have hlength := congrArg List.length hspared
  exact absurd hlength (by decide +kernel)

end Model

end LogDensity
