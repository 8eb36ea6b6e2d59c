import LogDensity.Proofs.Evaluation.Agreement
import LogDensity.Proofs.Evaluation.RationalDensity

/-!
# Polynomial densities

A straight-line program that never divides computes a polynomial of its parameters: it is carried
out on polynomials as it is on numbers, and carrying it out commutes with everything that respects
sums and products (`StraightLine.map_eval`). So its rational function is this polynomial, there is
no divisor that could be zero, and its tangent at a point consists of the values of the polynomial
and of its partial derivatives.

* `StraightLine.fst_logProb`, `StraightLine.fst_logProbGrad`: the density and its gradient are the
  values of the polynomial and of its partial derivatives.
-/

namespace LogDensity

open MvPolynomial RationalFunction

variable {K : Type} {n : Nat}

/-! ## Programs without division -/

/-- Neither a division nor a reciprocal. -/
def Instruction.DivisionFree : Instruction K n → Prop
  | recip _ => False
  | arithmetic f _ _ => f ≠ .div
  | _ => True

/-- There is neither a division nor a reciprocal in the program. -/
def StraightLine.DivisionFree {n : Nat} : StraightLine K n → Prop
  | result _ => True
  | bind i rest => i.DivisionFree ∧ rest.DivisionFree
  | assign f _ _ rest => f ≠ .div ∧ rest.DivisionFree

section Homomorphisms

variable {A B : Type} [CommRing A] [Div A] [Inv A] [CommRing B] [Div B] [Inv B] (φ : A →+* B)

omit [Inv A] [Inv B] in
theorem Arithmetic.map_eval {f : Arithmetic} (hf : f ≠ .div) (x y : A) :
    φ (f.eval x y) = f.eval (φ x) (φ y) := by
  cases f with
  | add => exact map_add φ x y
  | sub => exact map_sub φ x y
  | mul => exact map_mul φ x y
  | div => exact absurd rfl hf

theorem Instruction.map_eval {i : Instruction K n} (hi : i.DivisionFree) (c : K → A)
    (env : Fin n → A) : φ (i.eval c env) = i.eval (φ ∘ c) (φ ∘ env) := by
  cases i with
  | constant a => rfl
  | neg x => exact map_neg φ _
  | recip x => exact hi.elim
  | arithmetic f x y => exact Arithmetic.map_eval φ hi _ _
  | mulAdd x y z => simp only [eval, Function.comp, map_add, map_mul]
  | sum xs =>
    simp only [eval]
    rw [← List.sum_eq_foldl, ← List.sum_eq_foldl, map_list_sum, List.map_map]

/-- A program without division commutes with homomorphisms. -/
theorem StraightLine.map_eval {n : Nat} {p : StraightLine K n} (hp : p.DivisionFree) (c : K → A)
    (env : Fin n → A) : φ (p.eval c env) = p.eval (φ ∘ c) (φ ∘ env) := by
  induction p with
  | result x => rfl
  | bind i rest ih =>
    have henv : φ ∘ Fin.snoc env (i.eval c env) =
        (Fin.snoc (φ ∘ env) (i.eval (φ ∘ c) (φ ∘ env)) : Fin _ → B) := by
      rw [Fin.comp_snoc, Instruction.map_eval φ hp.1]
    simp only [eval]
    rw [ih hp.2, henv]
  | assign f x y rest ih =>
    simp only [eval]
    rw [ih hp.2, Function.comp_update, Arithmetic.map_eval φ hp.1]
    rfl

end Homomorphisms

section Field

variable [Field K]

theorem Instruction.DivisionFree.defined {i : Instruction K n} (hi : i.DivisionFree)
    (env : Fin n → K) : i.Defined env := by
  cases i with
  | recip x => exact hi.elim
  | arithmetic f x y =>
    cases f with
    | div => exact absurd rfl hi
    | _ => trivial
  | _ => trivial

/-- Without divisions no divisor is zero. -/
theorem StraightLine.DivisionFree.defined {n : Nat} {p : StraightLine K n} (hp : p.DivisionFree)
    (env : Fin n → K) : p.Defined env := by
  induction p with
  | result x => trivial
  | bind i rest ih => exact ⟨hp.1.defined env, ih hp.2 _⟩
  | assign f x y rest ih =>
    refine ⟨?_, ih hp.2 _⟩
    cases f with
    | div => exact absurd rfl hp.1
    | _ => trivial

/-! ## The polynomial of a program -/

section

/-- Polynomials are not divided; a division that is asked for all the same gives zero. -/
noncomputable local instance polynomialDiv : Div (MvPolynomial (Fin n) K) := ⟨fun _ _ => 0⟩

/-- Polynomials have no reciprocals; one that is asked for all the same is zero. -/
noncomputable local instance polynomialInv : Inv (MvPolynomial (Fin n) K) := ⟨fun _ => 0⟩

/-- The polynomial that a program without division computes. -/
noncomputable def StraightLine.polynomial (p : StraightLine K n) : MvPolynomial (Fin n) K :=
  p.eval C X

/-- Its rational function is this polynomial. -/
theorem StraightLine.rational_eq {p : StraightLine K n} (hp : p.DivisionFree) :
    p.rational = ofPolynomial p.polynomial :=
  (map_eval (algebraMap (MvPolynomial (Fin n) K) (RationalFunction K (Fin n))) hp C X).symm

end

variable [DecidableEq K] [Elementary K]

/-- The tangent of a program at a point is the value of its polynomial with the values of the
partial derivatives. -/
theorem StraightLine.tangent_eval {p : StraightLine K n} (hp : p.DivisionFree) (x : Fin n → K) :
    let t := p.eval Tangent.constant fun k => .param k (x k)
    t.value = MvPolynomial.eval x p.polynomial ∧
      ∀ k : Fin n, t.slopes k = MvPolynomial.eval x (MvPolynomial.pderiv k p.polynomial) := by
  intro t
  have hjet : t.IsJet p.rational x := p.isJet_eval (Tangent.isJet_param x) (hp.defined x)
  rw [rational_eq hp] at hjet
  have hfraction := Fraction.of_polynomial x p.polynomial
  constructor
  · rw [← hjet.valueAt, hfraction.valueAt_eq, map_one, div_one]
  · intro k
    rw [← hjet.valueAt_pderiv, hfraction.valueAt_pderiv]
    simp

/-! ## Evaluation -/

/-- The point whose coordinates are the first parameters, as many as there are to be. -/
def ParameterSpace.point {R : Type} (space : ParameterSpace) (xs : List R)
    (hsize : space.size ≤ xs.length) : Fin space.size → R :=
  fun k => xs.get (k.castLE hsize)

namespace StraightLine

/-- The values of the partial derivatives of the polynomial at a point, in the order of the
parameters. -/
noncomputable def partials (p : StraightLine K n) (x : Fin n → K) : List K :=
  List.ofFn fun k => MvPolynomial.eval x (MvPolynomial.pderiv k p.polynomial)

variable {P : Type → Type} [Container P] (space : ParameterSpace)
  (line : Mode → List Int → StraightLine K space.size) (home : Home) {params : P K}
  (ints : List Int) {mode : Mode} (hsize : space.size ≤ (Container.toList params).length)
  (hfree : (line mode ints).DivisionFree)

include hfree

/-- The gradient delivers the values of the partial derivatives. -/
theorem fst_logProbGrad (buffer : P K) (w : Workspace K) :
    let x := space.point (Container.toList params) hsize
    ((⟨space, .templated (density line)⟩ : Model K).logProbGrad home params ints mode buffer w).1 =
      (Container.overwrite buffer ((line mode ints).partials x),
        .ok (MvPolynomial.eval x (line mode ints).polynomial)) := by
  intro x
  obtain ⟨hvalue, hslopes⟩ := tangent_eval hfree x
  rw [logProbGrad_eq_eval space line home params ints mode buffer w hsize, ← hvalue]
  simp only [partials, ← hslopes]
  rw [List.ofFn_eq_map, ← List.map_coe_finRange_eq_range, List.map_map]
  rfl

/-- The density is the value of the polynomial. -/
theorem fst_logProb (w : Workspace K) :
    ((⟨space, .templated (density line)⟩ : Model K).logProb params ints mode w).1 =
      .ok (MvPolynomial.eval (space.point (Container.toList params) hsize)
        (line mode ints).polynomial) := by
  let model : Model K := ⟨space, .templated (density line)⟩
  have halone : _ = (model.logProb params ints mode w).1 := (Model.logProb_eq_guarded hsize w).1
  have hboth : _ = (model.logProbGrad .common params ints mode params w).1.2 :=
    (Model.logProbGrad_eq_guarded hsize .common params rfl).1
  rw [← halone, hboth, fst_logProbGrad space line .common ints hsize hfree params w]

end StraightLine

end Field

end LogDensity
