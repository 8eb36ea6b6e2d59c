import Mathlib

/-!
# Central differences of polynomials

A polynomial that is at most quadratic in one of its variables has the central difference that its
derivative in this variable predicts, at every distance. The other variables may occur to any
degree: they are the same on both sides, so that each monomial is a constant times a power of the
variable (`eval_update_monomial`).

* `eval_centralDifference`: the difference is twice the distance times the formal
  partial derivative.
-/

namespace LogDensity

open MvPolynomial

variable {K σ : Type} [CommRing K] [DecidableEq σ]

/-- What a monomial gives if one variable is varied. -/
theorem eval_update_monomial (d : σ →₀ ℕ) (c : K) (x : σ → K) (k : σ) (y : K) :
    eval (Function.update x k y) (monomial d c) =
      c * (y ^ d k * (d.erase k).prod fun i e => x i ^ e) := by
  have hothers : ((d.erase k).prod fun i e => Function.update x k y i ^ e) =
      (d.erase k).prod fun i e => x i ^ e := by
    refine Finsupp.prod_congr fun i hi => ?_
    have hne : i ≠ k := by
      rintro rfl
      simp at hi
    rw [Function.update_of_ne hne]
  rw [eval_monomial, ← Finsupp.mul_prod_erase' d k _ fun i => pow_zero _, Function.update_self,
    hothers]

/-- What the derivative of a monomial gives. -/
theorem eval_pderiv_monomial (d : σ →₀ ℕ) (c : K) (x : σ → K) (k : σ) :
    eval x (pderiv k (monomial d c)) =
      c * (d k * x k ^ (d k - 1) * (d.erase k).prod fun i e => x i ^ e) := by
  have hself : x = Function.update x k (x k) := (Function.update_eq_self k x).symm
  have herase : (d - Finsupp.single k 1).erase k = d.erase k := by
    ext i
    by_cases hi : i = k
    · rw [hi, Finsupp.erase_same, Finsupp.erase_same]
    · rw [Finsupp.erase_ne hi, Finsupp.erase_ne hi, Finsupp.tsub_apply, Finsupp.single_eq_of_ne hi,
        Nat.sub_zero]
  have hexponent : (d - Finsupp.single k 1 : σ →₀ ℕ) k = d k - 1 := by
    rw [Finsupp.tsub_apply, Finsupp.single_eq_same]
  rw [pderiv_monomial]
  conv_lhs => rw [hself]
  rw [eval_update_monomial, herase, hexponent]
  ring

/-- Powers up to the second have the central difference that the derivative predicts. -/
theorem pow_centralDifference {n : ℕ} (hn : n ≤ 2) (x ε : K) :
    (x + ε) ^ n - (x - ε) ^ n = 2 * ε * (n * x ^ (n - 1)) := by
  interval_cases n
  · simp
  · simp only [pow_one, Nat.cast_one, Nat.sub_self, pow_zero]
    ring
  · simp only [Nat.cast_ofNat, Nat.add_one_sub_one, pow_one]
    ring

/-- **The central difference of a polynomial that is at most quadratic in a variable.** -/
theorem eval_centralDifference {p : MvPolynomial σ K} {k : σ} (h : p.degreeOf k ≤ 2)
    (x : σ → K) (ε : K) :
    eval (Function.update x k (x k + ε)) p - eval (Function.update x k (x k - ε)) p =
      2 * ε * eval x (pderiv k p) := by
  have hdegree : ∀ d ∈ p.support, d k ≤ 2 := degreeOf_le_iff.1 h
  have hmonomial : ∀ d ∈ p.support,
      eval (Function.update x k (x k + ε)) (monomial d (p.coeff d)) -
          eval (Function.update x k (x k - ε)) (monomial d (p.coeff d)) =
        2 * ε * eval x (pderiv k (monomial d (p.coeff d))) := by
    intro d hd
    have hpow := pow_centralDifference (hdegree d hd) (x k) ε
    rw [eval_update_monomial, eval_update_monomial, eval_pderiv_monomial]
    linear_combination (p.coeff d * (d.erase k).prod fun i e => x i ^ e) * hpow
  conv_lhs => rw [p.as_sum]
  conv_rhs => rw [p.as_sum]
  simp only [map_sum]
  rw [← Finset.sum_sub_distrib, Finset.mul_sum]
  exact Finset.sum_congr rfl hmonomial

end LogDensity
