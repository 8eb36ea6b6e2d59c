import Mathlib

/-!
# Rational functions

The rational functions in several variables are the fractions of polynomials. A rational function
is evaluated at a point by evaluating its reduced numerator and denominator, and it is regular at
the point if the reduced denominator does not vanish there. Its formal partial derivative is that of
a fraction, formed from the reduced one.

* `Fraction.valueAt_eq`, `Fraction.valueAt_pderiv`: value and derivatives at a point can be found
  from any fraction whose denominator does not vanish there.
-/

noncomputable section

namespace LogDensity

open MvPolynomial

/-- Fractions of polynomials with coefficients in a field. -/
abbrev RationalFunction (K : Type) [Field K] (σ : Type) : Type :=
  FractionRing (MvPolynomial σ K)

namespace RationalFunction

variable {K : Type} [Field K] {σ : Type}

/-- A polynomial as a rational function. -/
def ofPolynomial (p : MvPolynomial σ K) : RationalFunction K σ :=
  algebraMap _ _ p

/-- The reduced numerator. -/
def num (r : RationalFunction K σ) : MvPolynomial σ K :=
  IsFractionRing.num (MvPolynomial σ K) r

/-- The reduced denominator. -/
def den (r : RationalFunction K σ) : MvPolynomial σ K :=
  (IsFractionRing.den (MvPolynomial σ K) r : MvPolynomial σ K)

/-- The reduced denominator does not vanish at a point. -/
def RegularAt (r : RationalFunction K σ) (x : σ → K) : Prop :=
  eval x r.den ≠ 0

/-- The value at a point. -/
def valueAt (r : RationalFunction K σ) (x : σ → K) : K :=
  eval x r.num / eval x r.den

/-- The formal partial derivative with respect to a variable. -/
def pderiv (k : σ) (r : RationalFunction K σ) : RationalFunction K σ :=
  ofPolynomial (MvPolynomial.pderiv k r.num * r.den - r.num * MvPolynomial.pderiv k r.den) /
    ofPolynomial (r.den ^ 2)

/-- `r` is the fraction `p / q`, whose denominator does not vanish at the point. -/
structure Fraction (r : RationalFunction K σ) (x : σ → K) (p q : MvPolynomial σ K) : Prop where
  eq : r = ofPolynomial p / ofPolynomial q
  ne : eval x q ≠ 0

theorem ofPolynomial_ne_zero {p : MvPolynomial σ K} (h : p ≠ 0) :
    ofPolynomial p ≠ 0 :=
  (map_ne_zero_iff _ (IsFractionRing.injective _ _)).2 h

theorem den_ne_zero (r : RationalFunction K σ) : r.den ≠ 0 :=
  nonZeroDivisors.coe_ne_zero (IsFractionRing.den (MvPolynomial σ K) r)

theorem num_div_den (r : RationalFunction K σ) : ofPolynomial r.num / ofPolynomial r.den = r :=
  IsFractionRing.mk'_num_den' (MvPolynomial σ K) r

theorem isRelPrime_den_num (r : RationalFunction K σ) : IsRelPrime r.den r.num :=
  (IsFractionRing.num_den_reduced (MvPolynomial σ K) r).symm

namespace Fraction

variable {r : RationalFunction K σ} {x : σ → K} {p q : MvPolynomial σ K}

theorem ofPolynomial_ne (h : r.Fraction x p q) : ofPolynomial q ≠ 0 :=
  ofPolynomial_ne_zero fun hq => h.ne (by rw [hq, map_zero])

/-- The reduced fraction and any other one agree crosswise. -/
theorem cross (h : r.Fraction x p q) : r.num * q = p * r.den := by
  have hr := r.num_div_den.trans h.eq
  rw [div_eq_div_iff (ofPolynomial_ne_zero r.den_ne_zero) h.ofPolynomial_ne] at hr
  simp only [ofPolynomial, ← map_mul] at hr
  exact IsFractionRing.injective _ _ hr

/-- The reduced denominator divides any other one. -/
theorem den_dvd (h : r.Fraction x p q) : r.den ∣ q :=
  r.isRelPrime_den_num.dvd_of_dvd_mul_left ⟨p, by rw [h.cross, mul_comm]⟩

theorem regularAt (h : r.Fraction x p q) : r.RegularAt x := by
  obtain ⟨c, hc⟩ := h.den_dvd
  intro hzero
  exact h.ne (by rw [hc, map_mul, hzero, zero_mul])

/-- The value at the point is the quotient of the values. -/
theorem valueAt_eq (h : r.Fraction x p q) : r.valueAt x = eval x p / eval x q := by
  rw [valueAt, div_eq_div_iff h.regularAt h.ne, ← map_mul, ← map_mul, h.cross]

/-- The quotient rule may be applied to any fraction. -/
theorem cross_pderiv (h : r.Fraction x p q) (k : σ) :
    (MvPolynomial.pderiv k r.num * r.den - r.num * MvPolynomial.pderiv k r.den) * q ^ 2 =
      (MvPolynomial.pderiv k p * q - p * MvPolynomial.pderiv k q) * r.den ^ 2 := by
  have hcross := h.cross
  have hderiv := congrArg (MvPolynomial.pderiv k) hcross
  simp only [Derivation.leibniz, smul_eq_mul] at hderiv
  linear_combination (q * r.den) * hderiv -
    (MvPolynomial.pderiv k r.den * q + MvPolynomial.pderiv k q * r.den) * hcross

theorem pderiv (h : r.Fraction x p q) (k : σ) :
    (r.pderiv k).Fraction x
      (MvPolynomial.pderiv k p * q - p * MvPolynomial.pderiv k q) (q ^ 2) where
  eq := by
    have hq : ofPolynomial (q ^ 2) ≠ 0 := by
      rw [ofPolynomial, map_pow]
      exact pow_ne_zero 2 h.ofPolynomial_ne
    have hden : ofPolynomial (r.den ^ 2) ≠ 0 :=
      ofPolynomial_ne_zero (pow_ne_zero 2 r.den_ne_zero)
    rw [RationalFunction.pderiv, div_eq_div_iff hden hq]
    simp only [ofPolynomial, ← map_mul, h.cross_pderiv k]
  ne := by
    rw [map_pow]
    exact pow_ne_zero 2 h.ne

/-- The derivative at the point follows the quotient rule. -/
theorem valueAt_pderiv (h : r.Fraction x p q) (k : σ) :
    (r.pderiv k).valueAt x =
      (eval x (MvPolynomial.pderiv k p) * eval x q -
          eval x p * eval x (MvPolynomial.pderiv k q)) / eval x q ^ 2 := by
  rw [(h.pderiv k).valueAt_eq, map_sub, map_mul, map_mul, map_pow]

/-! ## Operations on fractions -/

variable {s : RationalFunction K σ} {p' q' : MvPolynomial σ K}

theorem of_regularAt (h : r.RegularAt x) : r.Fraction x r.num r.den :=
  ⟨r.num_div_den.symm, h⟩

theorem of_polynomial (x : σ → K) (p : MvPolynomial σ K) : (ofPolynomial p).Fraction x p 1 where
  eq := by rw [ofPolynomial, ofPolynomial, map_one, div_one]
  ne := by rw [map_one]; exact one_ne_zero

theorem add (h : r.Fraction x p q) (h' : s.Fraction x p' q') :
    (r + s).Fraction x (p * q' + q * p') (q * q') where
  eq := by
    rw [h.eq, h'.eq, div_add_div _ _ h.ofPolynomial_ne h'.ofPolynomial_ne]
    simp only [ofPolynomial, map_add, map_mul]
  ne := by rw [map_mul]; exact mul_ne_zero h.ne h'.ne

theorem neg (h : r.Fraction x p q) : (-r).Fraction x (-p) q where
  eq := by
    rw [h.eq, ← neg_div]
    simp only [ofPolynomial, map_neg]
  ne := h.ne

theorem mul (h : r.Fraction x p q) (h' : s.Fraction x p' q') :
    (r * s).Fraction x (p * p') (q * q') where
  eq := by
    rw [h.eq, h'.eq, div_mul_div_comm]
    simp only [ofPolynomial, map_mul]
  ne := by rw [map_mul]; exact mul_ne_zero h.ne h'.ne

theorem inv (h : r.Fraction x p q) (hp : eval x p ≠ 0) : r⁻¹.Fraction x q p where
  eq := by rw [h.eq, inv_div]
  ne := hp

end Fraction

/-- The rational function is regular at the point, as are its partial derivatives, and these are
the values there. -/
structure HasJet (r : RationalFunction K σ) (x : σ → K) (value : K) (slopes : σ → K) : Prop where
  regularAt : r.RegularAt x
  valueAt : r.valueAt x = value
  pderiv_regularAt : ∀ k, (r.pderiv k).RegularAt x
  valueAt_pderiv : ∀ k, (r.pderiv k).valueAt x = slopes k

namespace HasJet

variable {r s : RationalFunction K σ} {x : σ → K} {v v' : K} {d d' : σ → K}

/-- A jet can be found from any fraction. -/
theorem of_fraction {p q : MvPolynomial σ K} (h : r.Fraction x p q) (hv : v = eval x p / eval x q)
    (hd : ∀ k, d k = (eval x (MvPolynomial.pderiv k p) * eval x q -
      eval x p * eval x (MvPolynomial.pderiv k q)) / eval x q ^ 2) :
    r.HasJet x v d where
  regularAt := h.regularAt
  valueAt := h.valueAt_eq.trans hv.symm
  pderiv_regularAt k := (h.pderiv k).regularAt
  valueAt_pderiv k := (h.valueAt_pderiv k).trans (hd k).symm

theorem const (x : σ → K) (c : K) : (ofPolynomial (C c) : RationalFunction K σ).HasJet x c 0 :=
  of_fraction (.of_polynomial x _) (by simp) (by simp)

theorem var [DecidableEq σ] (x : σ → K) (i : σ) :
    (ofPolynomial (X i) : RationalFunction K σ).HasJet x (x i) (Pi.single i 1) :=
  of_fraction (.of_polynomial x _) (by simp) fun k => by
    rw [pderiv_X]
    by_cases hk : i = k
    · subst hk; simp
    · simp [hk, Ne.symm hk]

theorem add (h : r.HasJet x v d) (h' : s.HasJet x v' d') :
    (r + s).HasJet x (v + v') fun k => d k + d' k := by
  have hr := Fraction.of_regularAt h.regularAt
  have hs := Fraction.of_regularAt h'.regularAt
  have hr0 := hr.ne
  have hs0 := hs.ne
  refine of_fraction (hr.add hs) ?_ fun k => ?_
  · rw [← h.valueAt, ← h'.valueAt, hr.valueAt_eq, hs.valueAt_eq]
    simp only [map_add, map_mul]
    field_simp
  · rw [← h.valueAt_pderiv, ← h'.valueAt_pderiv, hr.valueAt_pderiv, hs.valueAt_pderiv]
    simp only [map_add, map_mul, Derivation.leibniz, smul_eq_mul]
    field_simp
    ring

theorem neg (h : r.HasJet x v d) : (-r).HasJet x (-v) fun k => -d k := by
  have hr := Fraction.of_regularAt h.regularAt
  refine of_fraction hr.neg ?_ fun k => ?_
  · rw [← h.valueAt, hr.valueAt_eq, map_neg, neg_div]
  · rw [← h.valueAt_pderiv, hr.valueAt_pderiv]
    simp only [map_neg]
    ring

theorem sub (h : r.HasJet x v d) (h' : s.HasJet x v' d') :
    (r - s).HasJet x (v - v') fun k => d k - d' k := by
  simp only [sub_eq_add_neg]
  exact h.add h'.neg

theorem mul (h : r.HasJet x v d) (h' : s.HasJet x v' d') :
    (r * s).HasJet x (v * v') fun k => v' * d k + v * d' k := by
  have hr := Fraction.of_regularAt h.regularAt
  have hs := Fraction.of_regularAt h'.regularAt
  have hr0 := hr.ne
  have hs0 := hs.ne
  refine of_fraction (hr.mul hs) ?_ fun k => ?_
  · rw [← h.valueAt, ← h'.valueAt, hr.valueAt_eq, hs.valueAt_eq, div_mul_div_comm, map_mul,
      map_mul]
  · rw [← h.valueAt_pderiv, ← h'.valueAt_pderiv, hr.valueAt_pderiv, hs.valueAt_pderiv,
      ← h.valueAt, ← h'.valueAt, hr.valueAt_eq, hs.valueAt_eq]
    simp only [map_add, map_mul, Derivation.leibniz, smul_eq_mul]
    field_simp
    ring

theorem inv (h : r.HasJet x v d) (hv : v ≠ 0) :
    r⁻¹.HasJet x v⁻¹ fun k => -d k / v ^ 2 := by
  have hr := Fraction.of_regularAt h.regularAt
  have hr0 := hr.ne
  have hvalue : eval x r.num / eval x r.den = v := hr.valueAt_eq.symm.trans h.valueAt
  have hnum : eval x r.num ≠ 0 := by
    rintro hzero
    rw [hzero, zero_div] at hvalue
    exact hv hvalue.symm
  refine of_fraction (hr.inv hnum) ?_ fun k => ?_
  · rw [← hvalue, inv_div]
  · rw [← h.valueAt_pderiv, hr.valueAt_pderiv, ← hvalue]
    field_simp
    ring

theorem div (h : r.HasJet x v d) (h' : s.HasJet x v' d') (hv : v' ≠ 0) :
    (r / s).HasJet x (v / v') fun k => (d k * v' - v * d' k) / v' ^ 2 := by
  have hmul := h.mul (h'.inv hv)
  rw [← div_eq_mul_inv, ← div_eq_mul_inv] at hmul
  convert hmul using 2 with k
  field_simp
  ring

end HasJet

end RationalFunction

end LogDensity

end
