import LogDensity.Models.Failing
import LogDensity.Models.Mock
import LogDensity.Proofs.Binary64.Order
import LogDensity.Proofs.Evaluation.Agreement
import LogDensity.Proofs.Evaluation.Frame
import LogDensity.Proofs.Evaluation.InPlace

/-!
# What a clean gradient test shows

`Model.testGradients` counts the rows of its table that fail. A row fails if the difference exceeds
the tolerance, and there is a row for as many parameters as both gradients have entries.

* `Model.testGradients_eq_zero`: where no row fails, each difference is at most the tolerance,
  unless one of them is not a number.
* `Model.not_testGradients_eq_zero`: a difference that is not a number does not fail, and neither
  does an entry that a virtual model leaves out.
-/

namespace LogDensity

variable {R : Type}

namespace Run

variable {α β : Type} {w v : Workspace R}

/-- What follows a run and cannot stop, computes with its result. -/
theorem fst_bind_of_ok {f : α → Run R β} {b : α → β} (hf : ∀ a v, (f a v).1 = .ok (b a))
    (act : Run R α) (w : Workspace R) : ((act >>= f) w).1 = (act w).1.map b := by
  simp only [Bind.bind]
  generalize act w = out
  obtain ⟨a, v⟩ := out
  cases a with
  | ok a => exact hf a v
  | error s => rfl

/-- What follows a run that is not stopped. -/
theorem fst_bind_eq {act : Run R α} {f : α → Run R β} {a : α} {outcome : Outcome β}
    (h : (act w).1 = .ok a) (hf : ∀ v, (f a v).1 = outcome) : ((act >>= f) w).1 = outcome := by
  simp only [Bind.bind]
  generalize act w = out at h
  obtain ⟨_, v⟩ := out
  obtain rfl := h
  exact hf v

theorem forM_inform (text : α → String) (xs : List α) (w : Workspace R) :
    (xs.forM fun x => inform (text x)) w = (.ok (), (xs.map text).foldl Workspace.inform w) := by
  induction xs generalizing w with
  | nil => rfl
  | cons x xs ih => exact ih (w.inform (text x))

/-- A traversal that is not stopped has one result for each element. -/
theorem length_of_mapM_eq_ok {f : α → Run R β} {xs : List α} {ys : List β}
    (h : xs.mapM f w = (.ok ys, v)) : ys.length = xs.length := by
  induction xs generalizing ys w v with
  | nil =>
    obtain rfl : [] = ys := Except.ok.inj (Prod.mk.inj h).1
    rfl
  | cons x xs ih =>
    rw [List.mapM_cons] at h
    obtain ⟨y, u, -, h⟩ := bind_eq_ok.1 h
    obtain ⟨zs, u', hzs, h⟩ := bind_eq_ok.1 h
    obtain rfl : y :: zs = ys := Except.ok.inj (Prod.mk.inj h).1
    rw [List.length_cons, ih hzs, List.length_cons]

end Run

/-- Of two numbers that are not in the one strict order, the other weak one holds. -/
theorem Datum.atMost_of_not_less {a b : Datum} (h : Elementary.less a b = false) :
    Elementary.atMost b a = true ∨ Elementary.isNaN b = true ∨ Elementary.isNaN a = true := by
  cases hb : Elementary.isNaN b with
  | true => exact .inr (.inl rfl)
  | false =>
    cases ha : Elementary.isNaN a with
    | true => exact .inr (.inr rfl)
    | false => exact .inl (decide_eq_true (Binary64.le_of_not_lt hb ha (of_decide_eq_false h)))

namespace GradientRow

variable {params g f : List R} {tolerance : R}

/-- There is a row for each parameter that both gradients have. -/
theorem mem_ofGradients {r : GradientRow R} :
    r ∈ ofGradients params g f ↔ params[r.index]? = some r.value ∧ g[r.index]? = some r.model ∧
      f[r.index]? = some r.finiteDifference := by
  obtain ⟨k, p, x, y⟩ := r
  simp only [ofGradients, List.mem_map, List.mem_zipIdx_iff_getElem?, Prod.exists, mk.injEq,
    List.getElem?_zip_eq_some]
  constructor
  · rintro ⟨_, _, _, _, h, rfl, rfl, rfl, rfl⟩
    exact h
  · intro h
    exact ⟨p, x, y, k, h, rfl, rfl, rfl, rfl⟩

/-- No row fails if no two entries at one position differ by more than the tolerance. -/
theorem failed_eq_zero_iff [Scalar R] (hparams : f.length ≤ params.length) :
    ((ofGradients params g f).filter (fails tolerance)).length = 0 ↔
      ∀ (k : Nat) x y, g[k]? = some x → f[k]? = some y →
        Elementary.less tolerance (Elementary.abs (x - y)) = false := by
  rw [List.length_eq_zero_iff, List.filter_eq_nil_iff]
  constructor
  · intro h k x y hx hy
    have hk : k < params.length := (List.getElem?_eq_some_iff.1 hy).1.trans_le hparams
    have hrow : (⟨k, params[k], x, y⟩ : GradientRow R) ∈ ofGradients params g f :=
      mem_ofGradients.2 ⟨List.getElem?_eq_getElem hk, hx, hy⟩
    exact Bool.eq_false_iff.2 (h _ hrow)
  · intro h r hr
    obtain ⟨-, hx, hy⟩ := mem_ofGradients.1 hr
    exact Bool.eq_false_iff.1 (h _ _ _ hx hy)

end GradientRow

namespace Model

variable [Scalar R]

section

variable (m : Model R) (interrupt : Nat → Bool) {params : List R} (ints : List Int) (mode : Mode)
  (epsilon tolerance : R) {w v : Workspace R}

/-- Both gradients, with the value. -/
def bothGradients (params : List R) : Run R (R × List R × List R) := do
  let (value, partials) ← m.valueAndGradient params ints mode
  let differences ← m.finiteDifference interrupt params ints mode epsilon
  pure (value, partials, differences)

/-- A gradient test counts the rows that fail; its report does not stop it. -/
theorem fst_testGradients [Printable R] (params : List R) (w : Workspace R) :
    (m.testGradients interrupt params ints mode epsilon tolerance w).1 =
      (m.bothGradients interrupt ints mode epsilon params w.collecting).1.map fun (_, g, f) =>
        ((GradientRow.ofGradients params g f).filter (GradientRow.fails tolerance)).length := by
  refine Run.fst_bind_of_ok (fun (value, g, f) v => ?_)
    (Run.collected (m.bothGradients interrupt ints mode epsilon params)) w
  -- three messages, a message for each row, and perhaps a warning
  refine Run.fst_bind_eq rfl fun v => Run.fst_bind_eq rfl fun v => Run.fst_bind_eq rfl fun v =>
    Run.fst_bind_eq (congrArg Prod.fst (Run.forM_inform ..)) fun v => ?_
  dsimp only
  split <;> rfl

variable {m interrupt ints mode epsilon} {value : R} {g f : List R}

/-- There is a central difference for each parameter of the model that is given. -/
theorem length_finiteDifference_eq_min
    (h : m.finiteDifference interrupt params ints mode epsilon w = (.ok f, v)) :
    f.length = min m.size params.length := by
  rw [finiteDifference_eq] at h
  rw [Run.length_of_mapM_eq_ok h, List.length_zipIdx, List.length_take]

/-- The central differences are as many as the parameters. -/
theorem length_finiteDifference (hsize : m.size ≤ params.length)
    (h : m.finiteDifference interrupt params ints mode epsilon w = (.ok f, v)) :
    f.length = m.size := by
  rw [length_finiteDifference_eq_min h, Nat.min_eq_left hsize]

/-- The gradient of a templated model has as many entries as there are parameters. -/
theorem length_valueAndGradient (hkind : m.kind = .templated) (hsize : m.size ≤ params.length)
    (h : m.valueAndGradient params ints mode w = (.ok (value, g), v)) : g.length = m.size := by
  obtain ⟨space, density⟩ := m
  cases density with
  | virtual entries => cases hkind
  | templated program =>
    have hneeded : space.size ≤ (Container.toList params).length := hsize
    unfold valueAndGradient at h
    cases hrun : freshRun program .common ((Container.toList params).take space.size) ints mode
      w with
    | mk outcome u =>
      cases outcome with
      | error s =>
        rw [logProbGrad_of_error hneeded [] hrun] at h
        cases h
      | ok p =>
        obtain ⟨-, -, partials, -, hlength, hout⟩ := logProbGrad_of_ok hneeded [] hrun
        rw [hout] at h
        obtain ⟨⟨-, rfl⟩, -⟩ := h
        exact hlength

theorem bothGradients_eq_ok :
    m.bothGradients interrupt ints mode epsilon params w = (.ok (value, g, f), v) ↔
      ∃ u, m.valueAndGradient params ints mode w = (.ok (value, g), u) ∧
        m.finiteDifference interrupt params ints mode epsilon u = (.ok f, v) := by
  constructor
  · intro h
    obtain ⟨⟨_, _⟩, u, hg, h⟩ := Run.bind_eq_ok.1 h
    obtain ⟨_, u', hf, h⟩ := Run.bind_eq_ok.1 h
    cases h
    exact ⟨u, hg, hf⟩
  · rintro ⟨u, hg, hf⟩
    exact Run.bind_eq_ok.2 ⟨_, u, hg, Run.bind_eq_ok.2 ⟨f, v, hf, rfl⟩⟩

/-- A gradient test without failures has both gradients, and no row fails. -/
theorem exists_gradients [Printable R] {n : Nat}
    (h : (m.testGradients interrupt params ints mode epsilon tolerance w).1 = .ok n) :
    ∃ value g f u v, m.valueAndGradient params ints mode w.collecting = (.ok (value, g), u) ∧
      m.finiteDifference interrupt params ints mode epsilon u = (.ok f, v) ∧
      ((GradientRow.ofGradients params g f).filter (GradientRow.fails tolerance)).length = n := by
  rw [fst_testGradients] at h
  cases hboth : m.bothGradients interrupt ints mode epsilon params w.collecting with
  | mk outcome v =>
    rw [hboth] at h
    cases outcome with
    | error s => cases h
    | ok p =>
      obtain ⟨value, g, f⟩ := p
      obtain ⟨u, hg, hf⟩ := bothGradients_eq_ok.1 hboth
      exact ⟨value, g, f, u, v, hg, hf, Except.ok.inj h⟩

end

/-- **A clean gradient test bounds the differences.** If a gradient test counts no failure, both
gradients have been computed. There is a central difference for each parameter, and an entry of the
gradient if the model is templated. Where both are there, their difference does not exceed the
tolerance, and it is at most the tolerance unless one of the two is not a number. -/
theorem testGradients_eq_zero {m : Model Datum} {interrupt : Nat → Bool} {params : List Datum}
    {ints : List Int} {mode : Mode} {epsilon tolerance : Datum} {w : Workspace Datum}
    (hsize : m.size ≤ params.length)
    (h : (m.testGradients interrupt params ints mode epsilon tolerance w).1 = .ok 0) :
    ∃ value g f u v, m.valueAndGradient params ints mode w.collecting = (.ok (value, g), u) ∧
      m.finiteDifference interrupt params ints mode epsilon u = (.ok f, v) ∧
      f.length = m.size ∧ (m.kind = .templated → g.length = m.size) ∧
      ∀ (k : Nat) x y, g[k]? = some x → f[k]? = some y →
        Elementary.less tolerance (Elementary.abs (x - y)) = false ∧
        (Elementary.atMost (Elementary.abs (x - y)) tolerance = true ∨
          Elementary.isNaN (Elementary.abs (x - y)) = true ∨
            Elementary.isNaN tolerance = true) := by
  obtain ⟨value, g, f, u, v, hg, hf, hzero⟩ := exists_gradients tolerance h
  have hlength : f.length = m.size := length_finiteDifference hsize hf
  refine ⟨value, g, f, u, v, hg, hf, hlength,
    fun hkind => length_valueAndGradient hkind hsize hg, fun k x y hx hy => ?_⟩
  have hless := (GradientRow.failed_eq_zero_iff (hlength.trans_le hsize)).1 hzero k x y hx hy
  exact ⟨hless, Datum.atMost_of_not_less hless⟩

/-- The derivative of `-x²` at one is its central difference. -/
theorem testGradients_failing :
    let model : Model Datum :=
      ⟨Failing.space 10, .templated (Failing.program ((10 : Float) : Datum))⟩
    let w : Workspace Datum := {}
    let params : List Datum := [1]
    model.size ≤ params.length ∧
      (model.testGradients (fun _ => false) params [] .plain 1 0 w).1 = .ok 0 ∧
      ∃ value g f u v, model.valueAndGradient params [] .plain w.collecting =
          (.ok (value, g), u) ∧
        model.finiteDifference (fun _ => false) params [] .plain 1 u = (.ok f, v) ∧
        ∃ x y, g[0]? = some x ∧ f[0]? = some y ∧
          Elementary.less (0 : Datum) (Elementary.abs (x - y)) = false := by
  intro model w params
  have hsize : model.size ≤ params.length := by decide
  have htest : (model.testGradients (fun _ => false) params [] .plain 1 0 w).1 = .ok 0 := by
    decide +kernel
  obtain ⟨value, g, f, u, v, hg, hf, hlength, hlength', hclose⟩ :=
    testGradients_eq_zero hsize htest
  obtain ⟨x, rfl⟩ : ∃ x, g = [x] := List.length_eq_one_iff.1 (hlength' rfl)
  obtain ⟨y, rfl⟩ : ∃ y, f = [y] := List.length_eq_one_iff.1 hlength
  exact ⟨hsize, htest, value, [x], [y], u, v, hg, hf, x, y, rfl, rfl, (hclose 0 x y rfl rfl).1⟩

/-- Two ways in which a gradient test without failures says nothing about an entry: a difference
that is not a number, which the distance zero gives, and a gradient that a virtual model leaves
empty. -/
theorem not_testGradients_eq_zero :
    (¬ ∀ (m : Model Datum) (interrupt : Nat → Bool) (params : List Datum) (ints : List Int)
      (mode : Mode) (epsilon tolerance : Datum) (w : Workspace Datum), m.size ≤ params.length →
      (m.testGradients interrupt params ints mode epsilon tolerance w).1 = .ok 0 →
      ∀ value g f u v, m.valueAndGradient params ints mode w.collecting = (.ok (value, g), u) →
        m.finiteDifference interrupt params ints mode epsilon u = (.ok f, v) →
        ∀ (k : Nat) x y, g[k]? = some x → f[k]? = some y →
          Elementary.atMost (Elementary.abs (x - y)) tolerance = true) ∧
    ¬ ∀ (m : Model Datum) (interrupt : Nat → Bool) (params : List Datum) (ints : List Int)
      (mode : Mode) (epsilon tolerance : Datum) (w : Workspace Datum), m.size ≤ params.length →
      (m.testGradients interrupt params ints mode epsilon tolerance w).1 = .ok 0 →
      ∀ value g u, m.valueAndGradient params ints mode w.collecting = (.ok (value, g), u) →
        ∀ k < m.size, ∃ x, g[k]? = some x := by
  let never : Nat → Bool := fun _ => false
  let w : Workspace Datum := {}
  constructor
  · intro h
    let within (p : Datum × List Datum × List Datum) : Bool :=
      (p.2.1.zip p.2.2).all fun (x, y) => Elementary.atMost (Elementary.abs (x - y)) 1
    have hsize : (Mock.model (R := Datum)).size ≤ ([0] : List Datum).length := Nat.le_refl 1
    have htest : (Mock.model.testGradients never [0] [] .proptoJacobian 0 1 w).1 = .ok 0 := by
      decide +kernel
    have hbeyond : (Mock.model.bothGradients never [] .proptoJacobian 0 [0]
        w.collecting).1.toOption.map within = some false := by
      decide +kernel
    obtain ⟨value, g, f, u, v, hg, hf, -⟩ := exists_gradients 1 htest
    have hwithin : within (value, g, f) = true := by
      refine List.all_eq_true.2 fun (x, y) hmem => ?_
      obtain ⟨k, hk⟩ := List.mem_iff_getElem?.1 hmem
      obtain ⟨hx, hy⟩ := List.getElem?_zip_eq_some.1 hk
      exact h Mock.model never [0] [] .proptoJacobian 0 1 w hsize htest value g f u v hg hf k x y
        hx hy
    rw [bothGradients_eq_ok.2 ⟨u, hg, hf⟩] at hbeyond
    exact Bool.false_ne_true ((Option.some.inj hbeyond).symm.trans hwithin)
  · intro h
    let empty : Model Datum := ⟨Mock.space, .virtual
      { plain _ := pure (.ok 0), gradient _ _ buffer := pure (buffer, .ok 0) }⟩
    have hempty : empty.valueAndGradient [0] [] .plain w.collecting =
      (.ok (0, []), w.collecting) := rfl
    have hsize : empty.size ≤ ([0] : List Datum).length := Nat.le_refl 1
    have htest : (empty.testGradients never [0] [] .plain 1 1 w).1 = .ok 0 := by decide +kernel
    obtain ⟨x, hx⟩ := h empty never [0] [] .plain 1 1 w hsize htest 0 [] _ hempty 0 Nat.one_pos
    cases hx

end Model

end LogDensity
