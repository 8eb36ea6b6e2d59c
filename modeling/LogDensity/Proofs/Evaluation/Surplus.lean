import LogDensity.Models.Rosenbrock
import LogDensity.Proofs.Evaluation.GradientTest
import LogDensity.Proofs.Evaluation.Neutrality
import LogDensity.Proofs.Model.Container

/-!
# Surplus parameters

A templated model reads the first values of a container, as many as it has parameters. What stands
behind them is cut off before the density is run, in `logProb` and in `logProbGrad` alike
(`Run.needed_append`). A central difference perturbs one of the values that are read, in a copy that
keeps the surplus (`Model.quotientAt_append`), and a gradient test shows the parameters for which
there are derivatives (`GradientRow.ofGradients_append`).

* `Model.surplus_irrelevant`: surplus values make no difference to any entry point, neither to what
  it delivers nor to the workspace that it leaves.
-/

namespace LogDensity

variable {R : Type}

/-- Surplus values are cut off. -/
theorem Run.needed_append (name : String) {size : Nat} {xs : List R} (hsize : size ≤ xs.length)
    (extra : List R) : Run.needed name size (xs ++ extra) = Run.needed name size xs := by
  have hlonger : size ≤ (xs ++ extra).length := by rw [List.length_append]; omega
  funext w
  rw [needed_of_le hlonger, needed_of_le hsize, List.take_append_of_le_length hsize]

theorem differentiate_append [Scalar R] (home : Home) (name : String) {size : Nat} {xs : List R}
    (hsize : size ≤ xs.length) (extra : List R) (density : List (Dual R) → Run R (Dual R)) :
    differentiate home name size (xs ++ extra) density =
      differentiate home name size xs density := by
  rw [differentiate, differentiate, Run.needed_append name hsize]

/-- Two continuations that agree on what a run delivers. -/
theorem Run.bind_congr_of_ok {α β : Type} {act : Run R α} {f g : α → Run R β} {w : Workspace R}
    (h : ∀ a v, act w = (.ok a, v) → f a v = g a v) : (act >>= f) w = (act >>= g) w := by
  simp only [Bind.bind]
  cases hact : act w with
  | mk outcome v =>
    cases outcome with
    | ok a => exact h a v hact
    | error s => rfl

theorem Run.mapM_congr {α β : Type} {f g : α → Run R β} {xs : List α} (h : ∀ x ∈ xs, f x = g x) :
    xs.mapM f = xs.mapM g := by
  induction xs with
  | nil => rfl
  | cons x xs ih =>
    rw [List.mapM_cons, List.mapM_cons, h x List.mem_cons_self,
      ih fun y hy => h y (List.mem_cons_of_mem x hy)]

/-- There is no row for a parameter without a central difference. -/
theorem GradientRow.ofGradients_append {params g f : List R} (hf : f.length ≤ params.length)
    (extra : List R) : ofGradients (params ++ extra) g f = ofGradients params g f := by
  have hlength : (g.zip f).length ≤ params.length := by rw [List.length_zip]; omega
  have hcut (ps : List R) (h : (g.zip f).length ≤ ps.length) :
      ps.zip (g.zip f) = (ps.take (g.zip f).length).zip (g.zip f) := by
    have hmin := @List.zip_eq_zip_take_min R (R × R) ps (g.zip f)
    rwa [Nat.min_eq_right h, List.take_length] at hmin
  have hlonger : (g.zip f).length ≤ (params ++ extra).length := by
    rw [List.length_append]
    omega
  have hzip : (params ++ extra).zip (g.zip f) = params.zip (g.zip f) := by
    rw [hcut _ hlonger, List.take_append_of_le_length hlength, ← hcut _ hlength]
  rw [ofGradients, ofGradients, hzip]

namespace Model

section

variable [Scalar R] {m : Model R} (hkind : m.kind = .templated) {xs : List R}
  (hsize : m.size ≤ xs.length) (extra : List R) (ints : List Int) (mode : Mode)

include hkind hsize

section

variable {P P' : Type → Type} [Container P] [Container P'] {p : P R} {p' : P' R}
  (hp : Container.toList p = xs) (hp' : Container.toList p' = xs ++ extra)

include hp hp'

theorem logProb_append : m.logProb p' ints mode = m.logProb p ints mode := by
  obtain ⟨space, density⟩ := m
  cases density with
  | virtual entries => cases hkind
  | templated program =>
    simp only [logProb]
    rw [hp, hp', Run.needed_append _ hsize]

end

theorem logProbGrad_append {P : Type → Type} [Container P] {p p' : P R}
    (hp : Container.toList p = xs) (hp' : Container.toList p' = xs ++ extra) (home : Home)
    (buffer : P R) :
    m.logProbGrad home p' ints mode buffer = m.logProbGrad home p ints mode buffer := by
  obtain ⟨space, density⟩ := m
  cases density with
  | virtual entries => cases hkind
  | templated program =>
    have hcut : space.size ≤ xs.length := hsize
    funext w
    rw [logProbGrad_templated, logProbGrad_templated, evaluation, evaluation, hp, hp',
      differentiate_append home space.name hcut]

theorem valueAndGradient_append :
    m.valueAndGradient (xs ++ extra) ints mode = m.valueAndGradient xs ints mode := by
  funext w
  have hgrad : m.logProbGrad .common (xs ++ extra) ints mode [] =
      m.logProbGrad .common xs ints mode [] :=
    logProbGrad_append hkind hsize extra ints mode rfl rfl .common []
  simp only [valueAndGradient, hgrad]

/-- The copy in which one of the first parameters is perturbed keeps the surplus. -/
theorem quotientAt_append (interrupt : Nat → Bool) (epsilon x : R) {k : Nat} (hk : k < xs.length) :
    m.quotientAt interrupt (xs ++ extra) ints mode epsilon x k =
      m.quotientAt interrupt xs ints mode epsilon x k := by
  have hside (y : R) : m.logProb ((xs ++ extra).set k y) ints mode =
      m.logProb (xs.set k y) ints mode := by
    have hset : m.size ≤ (xs.set k y).length := by rwa [List.length_set]
    exact logProb_append hkind hset extra ints mode rfl (List.set_append_left _ _ hk)
  simp only [quotientAt, quotient, hside]

theorem finiteDifference_append (interrupt : Nat → Bool) (epsilon : R) :
    m.finiteDifference interrupt (xs ++ extra) ints mode epsilon =
      m.finiteDifference interrupt xs ints mode epsilon := by
  rw [finiteDifference_eq, finiteDifference_eq, List.take_append_of_le_length hsize]
  refine Run.mapM_congr fun (x, k) hmem => ?_
  have hk : k < (xs.take m.size).length := (List.mem_zipIdx' hmem).1
  exact quotientAt_append hkind hsize extra ints mode interrupt epsilon x
    (hk.trans_le (List.length_take_le' ..))

theorem testGradients_append [Printable R] (interrupt : Nat → Bool) (epsilon tolerance : R) :
    m.testGradients interrupt (xs ++ extra) ints mode epsilon tolerance =
      m.testGradients interrupt xs ints mode epsilon tolerance := by
  funext w
  rw [testGradients, testGradients, valueAndGradient_append hkind hsize,
    finiteDifference_append hkind hsize]
  refine Run.bind_congr_of_ok fun (value, g, f) v hcollected => ?_
  -- there are as many central differences as parameters that are read
  have hboth : (m.bothGradients interrupt ints mode epsilon xs w.collecting).1 =
      .ok (value, g, f) :=
    congrArg Prod.fst hcollected
  obtain ⟨u, -, hf⟩ := bothGradients_eq_ok.1 (Prod.ext hboth rfl)
  have hlength : f.length ≤ xs.length := (length_finiteDifference hsize hf).trans_le hsize
  simp only [GradientRow.ofGradients_append hlength]

/-- **Surplus parameters are ignored.** A templated model that is given further values behind those
it needs delivers the same, and leaves the same workspace: text, journal, logger, interrupt and
tapes. -/
theorem surplus_irrelevant [Printable R] {P : Type → Type} [Container P] {p p' : P R}
    (hp : Container.toList p = xs) (hp' : Container.toList p' = xs ++ extra) :
    m.logProb p' ints mode = m.logProb p ints mode ∧
      (∀ jacobian, m.logProbPropto p' ints jacobian = m.logProbPropto p ints jacobian) ∧
      (∀ home buffer,
        m.logProbGrad home p' ints mode buffer = m.logProbGrad home p ints mode buffer) ∧
      ∀ interrupt epsilon,
        m.finiteDifference interrupt (xs ++ extra) ints mode epsilon =
          m.finiteDifference interrupt xs ints mode epsilon ∧
        ∀ tolerance, m.testGradients interrupt (xs ++ extra) ints mode epsilon tolerance =
          m.testGradients interrupt xs ints mode epsilon tolerance :=
  ⟨logProb_append hkind hsize extra ints mode hp hp',
    fun jacobian => logProb_append hkind hsize extra ints ⟨true, jacobian⟩ hp hp',
    fun home buffer => logProbGrad_append hkind hsize extra ints mode hp hp' home buffer,
    fun interrupt epsilon =>
      ⟨finiteDifference_append hkind hsize extra ints mode interrupt epsilon,
        fun tolerance =>
          testGradients_append hkind hsize extra ints mode interrupt epsilon tolerance⟩⟩

end

/-- A density that adds up all that it is given finds two values, not three. -/
theorem surplus_irrelevant_sum :
    let model : Model Datum :=
      ⟨Rosenbrock.space, .templated fun _ params _ => Step.toProgram (Step.sum params)⟩
    let p := Dense.reversed ([1, 1] : List Datum)
    let p' := Dense.strided ([1, 1, 1] : List Datum)
    let w : Workspace Datum := { outlet := .logger .journal }
    let never : Nat → Bool := fun _ => false
    model.kind = .templated ∧ model.size ≤ ([1, 1] : List Datum).length ∧
      Container.toList p = [1, 1] ∧ Container.toList p' = [1, 1] ++ [1] ∧
      (model.logProb p [] .plain w).1.toOption.map (· == 1 + 1) = some true ∧
      model.logProb p' [] .plain w = model.logProb p [] .plain w ∧
      model.logProbGrad .own p' [] .plain p' w = model.logProbGrad .own p [] .plain p' w ∧
      model.testGradients never ([1, 1] ++ [1]) [] .plain 1 0 w =
        model.testGradients never [1, 1] [] .plain 1 0 w := by
  intro model p p' w never
  have hkind : model.kind = .templated := rfl
  have hsize : model.size ≤ ([1, 1] : List Datum).length := Nat.le_refl 2
  have hp : Container.toList p = [1, 1] := Dense.toList_reversed _
  have hp' : Container.toList p' = [1, 1] ++ [1] := Dense.toList_strided _
  have hvalue : (model.logProb p [] .plain w).1.toOption.map (· == 1 + 1) = some true := by
    decide +kernel
  obtain ⟨hdensity, -, hgradient, hrest⟩ := surplus_irrelevant hkind hsize [1] [] .plain hp hp'
  exact ⟨hkind, hsize, hp, hp', hvalue, congrFun hdensity w, congrFun (hgradient .own p') w,
    congrFun ((hrest never 1).2 0) w⟩

end Model

end LogDensity
