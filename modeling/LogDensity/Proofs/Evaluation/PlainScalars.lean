import LogDensity.Models.Failing
import LogDensity.Proofs.Evaluation.Shadow
import LogDensity.Proofs.Scalar.Composed

/-!
# Densities on plain numbers

A templated density can be called on plain numbers as well as on variables. What the numbers are
makes no difference to what it does, as long as it takes no integer power with the least exponent,
which has no derivative (`Program.AvoidsLeastPower`).

* `Model.logProbScalar_plain_recorded`: branches, text, errors and primal values are the same, and
  what is composed on variables is what the number type has as a function of its own.
-/

namespace LogDensity

namespace Program

variable {R : Type}

/-- No integer power with the least exponent is taken. -/
def AvoidsLeastPower : Program R → Prop
  | result _ => True
  | constant _ next => ∀ x, (next x).AvoidsLeastPower
  | unary f _ next => f ≠ .powi Int32.minValue ∧ ∀ x, (next x).AvoidsLeastPower
  | binary _ _ _ next => ∀ x, (next x).AvoidsLeastPower
  | write _ next => ∀ b, (next b).AvoidsLeastPower
  | active next => ∀ b, (next b).AvoidsLeastPower
  | nested _ _ _ _ next => ∀ value partials, (next value partials).AvoidsLeastPower
  | fail _ => True
  | halt _ => True

/-- Where there is nothing to refuse, guarded numbers are plain ones. -/
theorem run_guarded [Scalar R] (p : Program R) (hp : p.AvoidsLeastPower) (env : Array R) :
    p.run .guarded env = p.run .plain env ∧ p.course .guarded env = p.course .plain env := by
  induction p generalizing env with
  | result x => exact ⟨rfl, rfl⟩
  | constant c next ih =>
    obtain ⟨hrun, hcourse⟩ := ih ⟨env.size, c⟩ (hp _) (env.push c)
    exact ⟨hrun, funext fun w => congrArg _ (congrFun hcourse w)⟩
  | unary f x next ih =>
    have hf (x : R) : Interpretation.guarded.unary f x = Interpretation.plain.unary f x :=
      if_neg hp.1
    have hnext (v : R) := ih ⟨env.size, v⟩ (hp.2 _) (env.push v)
    exact ⟨congrArg₂ (· >>= ·) (hf _) (funext fun v => (hnext v).1),
      funext fun w => congrArg _ (congrArg₂ (Run.onward · · w) (hf _)
        (funext fun v => (hnext v).2))⟩
  | binary f x y next ih =>
    have hnext (v : R) := ih ⟨env.size, v⟩ (hp _) (env.push v)
    exact ⟨congrArg (_ >>= ·) (funext fun v => (hnext v).1),
      funext fun w => congrArg _ (congrArg (Run.onward _ · w) (funext fun v => (hnext v).2))⟩
  | write text next ih =>
    exact ⟨congrArg (_ >>= ·) (funext fun b => (ih b (hp b) env).1),
      funext fun w => congrArg _ (congrArg (Run.onward _ · w)
        (funext fun b => (ih b (hp b) env).2))⟩
  | active next ih =>
    exact ⟨congrArg (_ >>= ·) (funext fun b => (ih b (hp b) env).1),
      funext fun w => congrArg _ (congrArg (Run.onward _ · w)
        (funext fun b => (ih b (hp b) env).2))⟩
  | nested name size values body next _ ih =>
    have hnext (a : R × List R) := ih a.1 a.2 (hp a.1 a.2) env
    exact ⟨congrArg (_ >>= ·) (funext fun a => (hnext a).1),
      funext fun w => congrArg _ (congrArg (Run.onward _ · w) (funext fun a => (hnext a).2))⟩
  | fail e => exact ⟨rfl, rfl⟩
  | halt b => exact ⟨rfl, rfl⟩

end Program

section

variable {R : Type} [Scalar R] {home : Home} {w w' : Workspace R}

/-- Any program ends on guarded numbers as on live dual numbers with these values. -/
theorem agree_guarded_recorded (program : Mode → List (Slot R) → List Int → Program R) (mode : Mode)
    (ints : List Int) {vars : List (Dual R)} (hlive : ∀ x ∈ vars, x.Live (w'.tape home))
    (h : w.outlet = w'.outlet) :
    let xs := vars.map Dual.value
    let plain := runDensity .guarded program mode ints xs w
    let recorded := runDensity (.recorded home) program mode ints vars w'
    Outcome.Rel (fun x y => y.value = x) plain.1 recorded.1 ∧
      Workspace.Unison w w' plain.2 recorded.2 ∧
      (program mode (Interpretation.guarded.slots xs) ints).course .guarded xs.toArray w =
        (program mode ((Interpretation.recorded home).slots vars) ints).course (.recorded home)
          vars.toArray w' := by
  intro xs plain recorded
  have hs : (shadowing home w w').states (w'.tape home) w w' := ⟨rfl, .start h⟩
  have hvars : List.Forall₂ ((shadowing home w w').values (w'.tape home)) xs vars := by
    rw [List.forall₂_map_left_iff, List.forall₂_same]
    exact fun x hx => ⟨rfl, hlive x hx⟩
  obtain ⟨t, -, ⟨-, hunison⟩, hr⟩ := agree_shadow program mode ints hs hvars
  refine ⟨hr.imp fun _ _ hxy => hxy.1, hunison, ?_⟩
  rw [Simulation.slots_eq hvars]
  exact Simulation.course_eq _ (.inr (nests_shadowing home w w')) hs hvars

end

namespace Model

/-- **A density does the same on plain numbers and on variables.** Whichever of its arguments are
recorded and which are constants, as long as they are live: the two runs take the same course, write
the same text, and end in the same error or breach or in results with the same value. And where an
operation on variables is composed of others, it computes on plain numbers what the number type has
as a function of its own, the sign of not-a-number aside. -/
theorem logProbScalar_plain_recorded (space : ParameterSpace)
    {program : Mode → List (Slot Datum) → List Int → Program Datum}
    (hp : ∀ mode xs ints, (program mode xs ints).AvoidsLeastPower) (home : Home) (mode : Mode)
    (ints : List Int) {vars : List (Dual Datum)} {w w' : Workspace Datum}
    (hlive : ∀ x ∈ vars, x.Live (w'.tape home)) (h : w.outlet = w'.outlet) :
    let model : Model Datum := ⟨space, .templated program⟩
    let xs := vars.map Dual.value
    let plain := model.logProbScalar .plain xs ints mode w
    let recorded := model.logProbScalar (.recorded home) vars ints mode w'
    Outcome.Rel (fun x y => y.value = x) plain.1 recorded.1 ∧
      Workspace.Unison w w' plain.2 recorded.2 ∧
      (program mode (Interpretation.plain.slots xs) ints).course .plain xs.toArray w =
        (program mode ((Interpretation.recorded home).slots vars) ints).course (.recorded home)
          vars.toArray w' ∧
      (∀ (f : UnaryName) g env x, f.ofNumber? = some g → Step.Named env x →
        (f.steps x).Computes env (g x.primal)) ∧
      (∀ (f : BinaryName) g env x y, f.ofNumber? = some g → Step.Named env x → Step.Named env y →
        (f.steps x y).Computes env (g x.primal y.primal)) ∧
      ∀ env x next, Step.Named env x → (Step.sinCos x next).run .plain env =
        (next (⟨env.size, Elementary.sin x.primal⟩, ⟨env.size + 1, Elementary.cos x.primal⟩)).run
          .plain ((env.push (Elementary.sin x.primal)).push (Elementary.cos x.primal)) := by
  intro model xs plain recorded
  obtain ⟨hr, hunison, hcourse⟩ := agree_guarded_recorded program mode ints hlive h
  obtain ⟨hrun, hsame⟩ := Program.run_guarded _
    (hp mode (Interpretation.guarded.slots xs) ints) xs.toArray
  rw [runDensity, hrun] at hr hunison
  rw [hsame] at hcourse
  exact ⟨hr, hunison, hcourse, fun f g env x hg hx => f.steps_computes hg hx,
    fun f g env x y hg hx hy => f.steps_computes hg hx hy,
    fun env x next hx => Step.run_sinCos hx next⟩

theorem logProbScalar_failing :
    let t := ({} : Tape Datum).leaves [1]
    let vars := t.1 ++ [Dual.constant 0]
    let w : Workspace Datum := { outlet := .stream (.attached (.memory "")) }
    let w' : Workspace Datum := { w with own := t.2 }
    let model := Failing.model 0
    (∀ mode xs ints, (Failing.program (0 : Datum) mode xs ints).AvoidsLeastPower) ∧
      (∀ x ∈ vars, x.Live (w'.tape .own)) ∧ w.outlet = w'.outlet ∧
      Outcome.Rel (fun x y => y.value = x)
        (model.logProbScalar .plain (vars.map Dual.value) [] .plain w).1
        (model.logProbScalar (.recorded .own) vars [] .plain w').1 := by
  intro t vars w w'
  have hp (mode : Mode) (xs : List (Slot Datum)) (ints : List Int) :
      (Failing.program (0 : Datum) mode xs ints).AvoidsLeastPower := by
    have hneg : Unary.neg ≠ .powi Int32.minValue := Unary.noConfusion
    cases xs with
    | nil => exact trivial
    | cons x xs =>
      refine fun _ => ⟨hneg, fun _ => ?_⟩
      by_cases habove : Elementary.less 0 x.primal = true
      · simp only [habove]
        exact fun _ => trivial
      · simp only [habove]
        exact trivial
  have hlive : ∀ x ∈ vars, x.Live (w'.tape .own) :=
    List.forall_mem_append.2 ⟨Tape.live_leaves _ _,
      List.forall_mem_singleton.2 fun _ h => nomatch h⟩
  have hout := logProbScalar_plain_recorded (Failing.space 0) hp .own .plain [] hlive rfl
  exact ⟨hp, hlive, rfl, hout.1⟩

end Model

end LogDensity
