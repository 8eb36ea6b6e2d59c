import LogDensity.Evaluation.Functional
import LogDensity.Models.Failing
import LogDensity.Proofs.Evaluation.Agreement
import LogDensity.Proofs.Evaluation.Frame

/-!
# The gradient of a model as a function

`Model.gradient` delivers value and gradient without a buffer. For a virtual model it is the
evaluator `logProbGrad`. A templated model is taken as a function of all the values it is given:
it is evaluated as if it had as many parameters (`Model.gradient_eq_logProbGrad`). The evaluator
does not look at values beyond those it needs, so the two part where there are too many
(`Model.not_gradient_eq_logProbGrad`).
-/

namespace LogDensity

variable {R : Type}

/-! ## Collecting text -/

/-- How collecting ends: the outlet is put back, and its logger is given the text, unless there is
none or a contract was broken. -/
def Workspace.flush (w v : Workspace R) (broken : Bool) : Workspace R :=
  let restored := { v with outlet := w.outlet }
  if broken || v.outlet.text.isEmpty then restored else restored.inform v.outlet.text

theorem Workspace.SoundsLike.flush {v v' : Workspace R} (h : v.SoundsLike v') (w : Workspace R)
    (broken : Bool) : (w.flush v broken).SoundsLike (w.flush v' broken) := by
  have hrestored : ({ v with outlet := w.outlet } : Workspace R).SoundsLike
      { v' with outlet := w.outlet } := ⟨rfl, h.heard⟩
  unfold Workspace.flush
  simp only [h.outlet]
  split
  · exact hrestored
  · exact hrestored.inform _

theorem Workspace.tape_flush (w v : Workspace R) (broken : Bool) (home : Home) :
    (w.flush v broken).tape home = v.tape home := by
  unfold flush
  simp only
  split
  · rfl
  · exact tape_inform _ _ home

namespace Action

variable {α : Type} {broken : α → Bool} {act : Action R α} {w v : Workspace R}

theorem collected_eq {a : α} (h : act w.collecting = (a, v)) :
    collected broken act w = (a, w.flush v (broken a)) := by
  simp only [collected]
  rw [show act { w with outlet := .stream (.attached (.memory "")) } = (a, v) from h]
  rfl

theorem routed_of_logger {l : Logger} (h : w.outlet = .logger l) :
    routed broken act w = collected broken act w := by
  simp only [routed, h]

end Action

theorem isBreach_error {α β : Type} (s : Stop) :
    isBreach (.error s : Outcome α) = isBreach (.error s : Outcome β) :=
  Simulation.isBreach_eq (r := fun _ _ => False) (.error s)

/-- With a logger, the text of a run on fresh variables is collected. -/
theorem trial_routed {home : Home} {xs : List R} {density : List (Dual R) → Run R (Dual R)}
    {w v : Workspace R} {l : Logger} (hw : w.outlet = .logger l)
    {a : Outcome (List (Dual R) × Dual R)} (h : trial home xs density w.collecting = (a, v)) :
    trial home xs (fun vars => Run.routed (density vars)) w = (a, w.flush v (isBreach a)) := by
  let vars := ((w.tape home).leaves xs).1
  let u := w.setTape ((w.tape home).leaves xs).2 home
  have hu : u.collecting = w.collecting.setTape ((w.tape home).leaves xs).2 home := by
    cases home <;> rfl
  have hflush (v : Workspace R) (broken : Bool) : u.flush v broken = w.flush v broken := by
    cases home <;> rfl
  have hrouted : Run.routed (density vars) u = Run.collected (density vars) u :=
    Action.routed_of_logger ((Workspace.outlet_setTape ..).trans hw)
  have hsilent : (density vars >>= fun y => pure (vars, y)) u.collecting = (a, v) := by
    rw [hu]
    exact h
  change (Run.routed (density vars) >>= fun y => pure (vars, y)) u = _
  simp only [Bind.bind] at hsilent ⊢
  rw [hrouted]
  cases hrun : density vars u.collecting with
  | mk b v' =>
    have hcollected : Run.collected (density vars) u = _ := Action.collected_eq hrun
    rw [hcollected, hflush]
    rw [hrun] at hsilent
    cases b with
    | ok y =>
      obtain ⟨rfl, rfl⟩ := Prod.mk.inj hsilent
      rfl
    | error s =>
      obtain ⟨rfl, rfl⟩ := Prod.mk.inj hsilent
      rw [isBreach_error]

namespace Model

/-- The model with another number of parameters. -/
def resized (m : Model R) (n : Nat) : Model R :=
  ⟨{ m.space with size := n }, m.density⟩

variable [Scalar R]

section

variable (space : ParameterSpace) (xs : List R) {w : Workspace R} {l : Logger}

/-- As a function of its values a templated model is evaluated as if it had as many parameters. -/
theorem gradient_templated (program : Mode → List (Slot R) → List Int → Program R)
    (hw : w.outlet = .logger l) :
    let helper := (⟨space, .templated program⟩ : Model R).gradient xs w
    let evaluator := (⟨{ space with size := xs.length }, .templated program⟩ : Model R).logProbGrad
      .common xs [] .proptoJacobian [] w
    helper.1 = (evaluator.1.2.map fun y => (y, evaluator.1.1)) ∧ helper.2.SoundsLike evaluator.2 ∧
      ∀ y g, helper.1 = .ok (y, g) → g.length = xs.length := by
  intro helper evaluator
  have hsize : ({ space with size := xs.length } : ParameterSpace).size ≤
    (Container.toList xs).length := Nat.le_refl xs.length
  have htake : (Container.toList xs).take ({ space with size := xs.length } : ParameterSpace).size =
    xs := List.take_length
  let density := runDensity (.recorded .common) program .proptoJacobian ([] : List Int)
  have hhelper {a : Outcome (R × List R)} {v : Workspace R}
      (h : gradientAt .common xs density (fun _ => pure ()) w.collecting = (a, v)) :
      helper = (a, w.flush v (isBreach a)) := Action.collected_eq h
  cases hrun : trial .common xs density w.collecting with
  | mk a v =>
    have hfresh : freshRun program .common xs [] .proptoJacobian w =
      (a, w.flush v (isBreach a)) := trial_routed hw hrun
    cases a with
    | error s =>
      have hgradient : gradientAt .common xs density (fun _ => pure ()) w.collecting = _ :=
        gradientAt_of_error hrun
      have hevaluator : evaluator = _ := logProbGrad_of_error hsize [] (htake.symm ▸ hfresh)
      rw [isBreach_error (β := R × List R)] at hevaluator
      rw [hhelper hgradient, hevaluator]
      refine ⟨rfl, ?_, fun y g h => nomatch h⟩
      exact (Workspace.SoundsLike.flush (.release ..) w _).trans
        (Workspace.SoundsLike.release ..).symm
    | ok p =>
      obtain ⟨vars, y⟩ := p
      obtain ⟨-, -, partials, hsweep, hlength, hboth⟩ :=
        logProbGrad_of_ok hsize [] (htake.symm ▸ hfresh)
      rw [Workspace.tape_flush] at hsweep
      have hgradient : gradientAt .common xs density (fun _ => pure ()) w.collecting = _ :=
        gradientAt_of_ok hrun hsweep fun _ _ => rfl
      rw [hhelper hgradient, show evaluator = _ from hboth]
      refine ⟨rfl, ?_, ?_⟩
      · exact (Workspace.SoundsLike.flush (.release ..) w _).trans
          ((Workspace.SoundsLike.release ..).trans (.reportNodes ..)).symm
      · rintro _ _ ⟨⟩
        exact hlength

/-- A virtual model delivers the gradient of its evaluator. -/
theorem gradient_virtual (entries : Virtual R) (hw : w.outlet = .logger l) :
    let model : Model R := ⟨space, .virtual entries⟩
    let helper := model.gradient xs w
    let evaluator := model.logProbGrad .common xs [] .proptoJacobian [] w
    helper.1 = (evaluator.1.2.map fun y => (y, evaluator.1.1)) ∧ helper.2 = evaluator.2 := by
  intro model helper evaluator
  cases hrun : (entries.gradient .proptoJacobian xs []).run w.collecting with
  | mk out v =>
    obtain ⟨g, outcome⟩ := out
    have hinner : model.logProbGrad .common xs [] .proptoJacobian [] w.collecting =
        ((g, outcome), v) := hrun
    have hvalue : model.valueAndGradient xs [] .proptoJacobian w.collecting =
        (outcome.map fun y => (y, g), v) := by
      simp only [valueAndGradient, hinner]
      cases outcome <;> rfl
    have hhelper : helper = _ := Action.collected_eq hvalue
    have hevaluator : evaluator = _ :=
      (Action.routed_of_logger hw).trans (Action.collected_eq hrun)
    rw [hhelper, hevaluator]
    cases outcome with
    | ok y => exact ⟨rfl, rfl⟩
    | error s => exact ⟨rfl, congrArg (w.flush v) (isBreach_error s)⟩

end

/-- **The gradient of a model is that of the evaluator for as many parameters as are given.** -/
theorem gradient_eq_logProbGrad (m : Model R) (xs : List R) (l : Logger) (w : Workspace R) :
    let start := { w with outlet := .logger l }
    let helper := m.gradient xs start
    let evaluator := (m.resized xs.length).logProbGrad .common xs [] .proptoJacobian [] start
    helper.1 = (evaluator.1.2.map fun y => (y, evaluator.1.1)) ∧ helper.2.SoundsLike evaluator.2 ∧
      (m.kind = .virtual ∨ xs.length = m.size →
        evaluator = m.logProbGrad .common xs [] .proptoJacobian [] start) ∧
      (m.kind = .templated → ∀ y g, helper.1 = .ok (y, g) → g.length = xs.length) := by
  intro start helper evaluator
  obtain ⟨space, density⟩ := m
  cases density with
  | templated program =>
    have hstart : start.outlet = .logger l := rfl
    obtain ⟨hout, hsounds, hlength⟩ := gradient_templated space xs program hstart
    refine ⟨hout, hsounds, ?_, fun _ => hlength⟩
    rintro (hkind | hsize)
    · cases hkind
    · have hself : (⟨space, .templated program⟩ : Model R).resized xs.length =
          ⟨space, .templated program⟩ := by rw [hsize]; rfl
      exact congrArg (Model.logProbGrad · .common xs [] .proptoJacobian [] start) hself
  | virtual entries =>
    have hstart : start.outlet = .logger l := rfl
    obtain ⟨hout, hstate⟩ := gradient_virtual space xs entries hstart
    refine ⟨hout, ?_, fun _ => rfl, fun h => nomatch h⟩
    rw [show helper.2 = evaluator.2 from hstate]
    exact .refl _

/-- The evaluator of the model itself does not look at a value too many, but `gradient` takes the
derivative by it. -/
theorem not_gradient_eq_logProbGrad :
    ¬ ∀ (m : Model Datum) (xs : List Datum) (l : Logger) (w : Workspace Datum),
      m.kind = .virtual ∨ m.size ≤ xs.length →
      let start := { w with outlet := .logger l }
      ∀ y g, (m.gradient xs start).1 = .ok (y, g) ↔
        (m.logProbGrad .common xs [] .proptoJacobian [] start).1 = (g, .ok y) := by
  intro h
  let start : Workspace Datum := { outlet := .logger .noop }
  have hhelper : ((Failing.model 10).gradient [1, 1] start).1.toOption.map
      (fun p => p.2.length) = some 2 := by decide +kernel
  have hevaluator : ((Failing.model 10).logProbGrad .common [1, 1] [] .proptoJacobian []
      start).1.1.length = 1 := by decide +kernel
  have hsize : (Failing.model 10).size ≤ ([1, 1] : List Datum).length := by decide
  cases hout : ((Failing.model 10).gradient [1, 1] start).1 with
  | error s =>
    rw [hout] at hhelper
    cases hhelper
  | ok p =>
    rw [hout] at hhelper
    have hsame : ((Failing.model 10).logProbGrad .common [1, 1] [] .proptoJacobian [] start).1 =
        (p.2, .ok p.1) := (h (Failing.model 10) [1, 1] .noop {} (.inr hsize) p.1 p.2).1 hout
    rw [hsame] at hevaluator
    exact absurd (hevaluator.symm.trans (Option.some.inj hhelper)) (by decide)

end Model

end LogDensity
