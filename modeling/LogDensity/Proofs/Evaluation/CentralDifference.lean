import LogDensity.Proofs.Algebra.CentralDifference
import LogDensity.Proofs.Evaluation.GradientTest
import LogDensity.Proofs.Evaluation.Neutrality
import LogDensity.Proofs.Evaluation.PolynomialDensity

/-!
# Central differences of quadratic densities

Central differences are exact where the density is a polynomial that is at most quadratic in each
parameter: moving one parameter up and down moves one variable of the polynomial
(`StraightLine.fst_logProb_set`), and the difference of the two values is what the partial
derivative predicts. So over an ordered field the estimate is the gradient, and a gradient test
finds nothing.

* `StraightLine.fst_finiteDifference`: the estimate is made of the partial derivatives.
* `StraightLine.finiteDifference_eq_logProbGrad`: it is the list that the gradient delivers, and no
  gradient test fails.
-/

namespace LogDensity

/-- The comparison and the absolute value of the scalars are those of an ordered field. -/
class OrderedScalar (K : Type) [Field K] [LinearOrder K] [Elementary K] : Prop where
  less_iff (x y : K) : Elementary.less x y = true ↔ x < y
  abs_eq (x : K) : Elementary.abs x = |x|

instance : OrderedScalar ℚ where
  less_iff _ _ := decide_eq_true_iff
  abs_eq _ := rfl

instance : Printable ℚ where
  display x := toString x
  fixed _ x := toString x

/-- Runs that always deliver, one after the other, deliver the list of what they deliver. -/
theorem Run.fst_mapM_of_ok {R α β : Type} {f : α → Run R β} {xs : List α} {ys : List β}
    (h : List.Forall₂ (fun x y => ∀ w, (f x w).1 = .ok y) xs ys) (w : Workspace R) :
    (xs.mapM f w).1 = .ok ys := by
  induction h generalizing w with
  | nil => rfl
  | cons hx _ ih =>
    rw [List.mapM_cons]
    exact fst_bind_eq (hx w) fun v => fst_bind_eq (ih v) fun _ => rfl

theorem Model.fst_valueAndGradient {R : Type} [Scalar R] {m : Model R} {params : List R}
    {ints : List Int} {mode : Mode} {w : Workspace R} {value : R} {partials : List R}
    (h : (m.logProbGrad .common params ints mode [] w).1 = (partials, .ok value)) :
    (m.valueAndGradient params ints mode w).1 = .ok (value, partials) := by
  unfold valueAndGradient
  generalize m.logProbGrad .common params ints mode [] w = out at h
  obtain ⟨a, v⟩ := out
  obtain rfl : a = _ := h
  rfl

namespace StraightLine

variable {K : Type} [Field K] [LinearOrder K] [Elementary K] (space : ParameterSpace)
  (line : Mode → List Int → StraightLine K space.size) {xs : List K} (ints : List Int) {mode : Mode}
  (hfree : (line mode ints).DivisionFree) (hsize : space.size ≤ xs.length)

include hfree hsize

/-- With one parameter moved the density is the value of the polynomial with one variable moved. -/
theorem fst_logProb_set (k : Fin space.size) (y : K) (w : Workspace K) :
    ((⟨space, .templated (density line)⟩ : Model K).logProb (xs.set k y) ints mode w).1 =
      .ok (MvPolynomial.eval (Function.update (space.point xs hsize) k y)
        (line mode ints).polynomial) := by
  have hsize' : space.size ≤ (xs.set k y).length := by rwa [List.length_set]
  have hpoint : space.point (xs.set k y) hsize' = Function.update (space.point xs hsize) k y := by
    funext i
    simp only [ParameterSpace.point, List.get_eq_getElem, List.getElem_set, Function.update_apply,
      Fin.val_castLE, Fin.ext_iff, eq_comm]
  rw [← hpoint]
  exact fst_logProb space line ints hsize' hfree w

variable [IsStrictOrderedRing K] {interrupt : Nat → Bool} (hgo : ∀ i, interrupt i = false)
  {ε : K} (hε : ε ≠ 0) (hdegree : ∀ k, (line mode ints).polynomial.degreeOf k ≤ 2)

include hgo hε hdegree

/-- The difference quotient of a parameter is the partial derivative. -/
theorem fst_quotientAt (k : Fin space.size) (w : Workspace K) :
    let x := space.point xs hsize
    ((⟨space, .templated (density line)⟩ : Model K).quotientAt interrupt xs ints mode ε (x k) k
      w).1 = .ok (MvPolynomial.eval x (MvPolynomial.pderiv k (line mode ints).polynomial)) := by
  intro x
  have htwo : ((2 : Int) : K) * ε ≠ 0 := mul_ne_zero (by simp) hε
  have hdifference := eval_centralDifference (hdegree k) x ε
  refine Run.fst_bind_eq (a := false) (congrArg Except.ok (hgo w.polls)) fun v => ?_
  -- the density above and below
  refine Run.fst_bind_eq (fst_logProb_set space line ints hfree hsize k _ v) fun v => ?_
  refine Run.fst_bind_eq (fst_logProb_set space line ints hfree hsize k _ v) fun v => ?_
  refine congrArg Except.ok ?_
  rw [div_eq_iff htwo, hdifference, Int.cast_ofNat, mul_comm]

/-- **Central differences are the partial derivatives.** -/
theorem fst_finiteDifference (w : Workspace K) :
    ((⟨space, .templated (density line)⟩ : Model K).finiteDifference interrupt xs ints mode ε w).1 =
      .ok ((line mode ints).partials (space.point xs hsize)) := by
  have hlength : (xs.take space.size).zipIdx.length = space.size := by
    rw [List.length_zipIdx, List.length_take, Nat.min_eq_left hsize]
  rw [Model.finiteDifference_eq, partials]
  refine Run.fst_mapM_of_ok (List.forall₂_iff_get.2 ⟨?_, fun i hi hi' v => ?_⟩) w
  · rw [List.length_ofFn]
    exact hlength
  · obtain ⟨k, rfl⟩ : ∃ k : Fin space.size, (k : Nat) = i := ⟨⟨i, hlength ▸ hi⟩, rfl⟩
    have hentry : (xs.take space.size).zipIdx.get ⟨k, hi⟩ = (space.point xs hsize k, k.val) := by
      simp [ParameterSpace.point]
    have hpartial := fst_quotientAt space line ints hfree hsize hgo hε hdegree k v
    rw [List.get_ofFn]
    refine Eq.trans ?_ hpartial
    exact congrArg (fun p : K × Nat =>
      (Model.quotientAt _ interrupt xs ints mode ε p.1 p.2 v).1) hentry

variable [OrderedScalar K] [Printable K]

/-- A gradient test finds nothing, however small the tolerance. -/
theorem fst_testGradients_eq_zero {tolerance : K} (htolerance : 0 ≤ tolerance) (w : Workspace K) :
    ((⟨space, .templated (density line)⟩ : Model K).testGradients interrupt xs ints mode ε tolerance
      w).1 = .ok 0 := by
  let model : Model K := ⟨space, .templated (density line)⟩
  let g := (line mode ints).partials (space.point xs hsize)
  have hboth (v : Workspace K) : (model.bothGradients interrupt ints mode ε xs v).1 =
      .ok (MvPolynomial.eval (space.point xs hsize) (line mode ints).polynomial, g, g) := by
    refine Run.fst_bind_eq (Model.fst_valueAndGradient
      (fst_logProbGrad space line .common ints hsize hfree [] v)) fun v => ?_
    exact Run.fst_bind_eq
      (fst_finiteDifference space line ints hfree hsize hgo hε hdegree v) fun _ => rfl
  have hlength : g.length ≤ xs.length := List.length_ofFn.trans_le hsize
  have hclean :
      ((GradientRow.ofGradients xs g g).filter (GradientRow.fails tolerance)).length = 0 := by
    refine (GradientRow.failed_eq_zero_iff hlength).2 fun k y z hy hz => ?_
    obtain rfl : y = z := Option.some.inj (hy.symm.trans hz)
    rw [sub_self, OrderedScalar.abs_eq, abs_zero, Bool.eq_false_iff]
    exact fun hless => htolerance.not_gt ((OrderedScalar.less_iff _ _).1 hless)
  rw [Model.fst_testGradients, hboth]
  exact congrArg Except.ok hclean

end StraightLine

/-- **Central differences of quadratic densities are exact.** Take a model of straight-line programs
over an ordered field, without divisions, and with a polynomial that is at most quadratic in each
parameter; enough parameters; and an interrupt that never stops. At every distance but zero the
central differences are the list that the gradient leaves in its buffer, whatever was there before:
the values of the formal partial derivatives. A gradient test counts no failure, for any tolerance
that is not negative. -/
theorem StraightLine.finiteDifference_eq_logProbGrad {K : Type} [Field K] [LinearOrder K]
    [IsStrictOrderedRing K] [Elementary K] [OrderedScalar K] [Printable K] {P : Type → Type}
    [Container P] [LawfulContainer P] (space : ParameterSpace)
    (line : Mode → List Int → StraightLine K space.size) (home : Home) {params : P K} {xs : List K}
    (hparams : Container.toList params = xs) (hsize : space.size ≤ xs.length) (ints : List Int)
    (mode : Mode) (hfree : (line mode ints).DivisionFree)
    (hdegree : ∀ k, (line mode ints).polynomial.degreeOf k ≤ 2) {interrupt : Nat → Bool}
    (hgo : ∀ i, interrupt i = false) {ε : K} (hε : ε ≠ 0) (buffer : P K) (w w' : Workspace K) :
    let model : Model K := ⟨space, .templated (density line)⟩
    let g := (line mode ints).partials (space.point xs hsize)
    let value := MvPolynomial.eval (space.point xs hsize) (line mode ints).polynomial
    (model.finiteDifference interrupt xs ints mode ε w).1 = .ok g ∧
      (∃ buffer', (model.logProbGrad home params ints mode buffer w').1 = (buffer', .ok value) ∧
        Container.toList buffer' = g) ∧
      ∀ tolerance, 0 ≤ tolerance →
        (model.testGradients interrupt xs ints mode ε tolerance w).1 = .ok 0 := by
  subst hparams
  intro model g value
  refine ⟨fst_finiteDifference space line ints hfree hsize hgo hε hdegree w, ?_, ?_⟩
  · exact ⟨Container.overwrite buffer g,
      fst_logProbGrad space line home ints hsize hfree buffer w',
      LawfulContainer.toList_overwrite buffer g⟩
  · intro tolerance htolerance
    exact fst_testGradients_eq_zero space line ints hfree hsize hgo hε hdegree htolerance w

/-- The polynomial `x² + x y + y` of two parameters. -/
def mixedQuadratic (x y : Fin 2) : StraightLine ℚ 2 :=
  .bind (.arithmetic .mul x x) <|
  .bind (.arithmetic .mul x.castSucc y.castSucc) <|
  .bind (.arithmetic .add (Fin.last 2).castSucc (Fin.last 3)) <|
  .bind (.arithmetic .add (Fin.last 4) y.castSucc.castSucc.castSucc) <| .result (Fin.last 5)

theorem polynomial_mixedQuadratic (x y : Fin 2) : (mixedQuadratic x y).polynomial =
    MvPolynomial.X x * MvPolynomial.X x + MvPolynomial.X x * MvPolynomial.X y +
      MvPolynomial.X y := by
  simp only [mixedQuadratic, StraightLine.polynomial, StraightLine.eval, Instruction.eval,
    Arithmetic.eval, Fin.snoc_last, Fin.snoc_castSucc]

theorem degreeOf_mixedQuadratic (x y k : Fin 2) :
    (mixedQuadratic x y).polynomial.degreeOf k ≤ 2 := by
  have hvar (i : Fin 2) : (MvPolynomial.X i : MvPolynomial (Fin 2) ℚ).degreeOf k ≤ 1 := by
    rw [MvPolynomial.degreeOf_X]
    split <;> omega
  have hproduct (i j : Fin 2) :
      (MvPolynomial.X i * MvPolynomial.X j : MvPolynomial (Fin 2) ℚ).degreeOf k ≤ 2 :=
    (MvPolynomial.degreeOf_mul_le k _ _).trans (Nat.add_le_add (hvar i) (hvar j))
  rw [polynomial_mixedQuadratic]
  refine (MvPolynomial.degreeOf_add_le k _ _).trans (max_le ?_ ((hvar y).trans (by omega)))
  exact (MvPolynomial.degreeOf_add_le k _ _).trans (max_le (hproduct x x) (hproduct x y))

theorem StraightLine.finiteDifference_mixedQuadratic :
    let line : Mode → List Int → StraightLine ℚ Rosenbrock.space.size :=
      fun _ _ => mixedQuadratic 0 1
    let model : Model ℚ := ⟨Rosenbrock.space, .templated (density line)⟩
    let xs : List ℚ := [1, 2, 5]
    let never : Nat → Bool := fun _ => false
    (Dense.reversed xs).toList = xs ∧ Rosenbrock.space.size ≤ xs.length ∧
      (mixedQuadratic 0 1).DivisionFree ∧
      (∀ k, (mixedQuadratic 0 1).polynomial.degreeOf k ≤ 2) ∧ (∀ i, never i = false) ∧
      (3 : ℚ) ≠ 0 ∧
      (∃ g value buffer', (model.finiteDifference never xs [] .proptoJacobian 3 {}).1 = .ok g ∧
        (model.logProbGrad .own (Dense.reversed xs) [] .proptoJacobian (Dense.strided [7]) {}).1 =
          (buffer', .ok value) ∧ buffer'.toList = g) ∧
      (model.testGradients never xs [] .proptoJacobian 3 0 {}).1 = .ok 0 := by
  intro line model xs never
  have hparams : (Dense.reversed xs).toList = xs := Dense.toList_reversed xs
  have hsize : Rosenbrock.space.size ≤ xs.length := by decide
  have hfree : (mixedQuadratic 0 1).DivisionFree := ⟨nofun, nofun, nofun, nofun, trivial⟩
  have hgo (i : Nat) : never i = false := rfl
  have hthree : (3 : ℚ) ≠ 0 := by norm_num
  obtain ⟨hdifferences, ⟨buffer', hgradient, hbuffer⟩, htest⟩ := finiteDifference_eq_logProbGrad
    Rosenbrock.space line .own hparams hsize [] .proptoJacobian hfree
    (degreeOf_mixedQuadratic 0 1) hgo hthree (Dense.strided [7]) {} {}
  exact ⟨hparams, hsize, hfree, degreeOf_mixedQuadratic 0 1, hgo, hthree,
    ⟨_, _, buffer', hdifferences, hgradient, hbuffer⟩, htest 0 le_rfl⟩

end LogDensity
