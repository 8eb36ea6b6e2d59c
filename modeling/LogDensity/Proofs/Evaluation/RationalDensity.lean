import LogDensity.Models.Rosenbrock
import LogDensity.Proofs.Algebra.RationalFunction
import LogDensity.Proofs.Evaluation.Gradient
import LogDensity.Proofs.Model.Container
import LogDensity.Proofs.Program.StraightLine

/-!
# Gradients of rational densities

Over a field, a straight-line program computes a rational function of its parameters. Where no
divisor is zero, a tangent carried through the program is the value and the derivatives of that
function (`StraightLine.isJet_eval`), so the gradient entry point, which delivers the tangent, is
exact: `StraightLine.logProbGrad_eq_pderiv`.
-/

namespace LogDensity

open MvPolynomial RationalFunction

variable {K : Type} [Field K] {n : Nat}

/-- The rational function that a program computes. -/
noncomputable def StraightLine.rational (p : StraightLine K n) : RationalFunction K (Fin n) :=
  p.eval (fun c => ofPolynomial (C c)) fun k => ofPolynomial (X k)

/-- The tangent is the value and the derivatives of a rational function at a point. -/
def Tangent.IsJet (t : Tangent K) (r : RationalFunction K (Fin n)) (x : Fin n → K) : Prop :=
  r.HasJet x t.value fun k => t.slopes k

theorem Tangent.isJet_param (x : Fin n → K) (k : Fin n) :
    (param k (x k)).IsJet (ofPolynomial (X k)) x := by
  have hslopes : (fun j : Fin n => (param (k : Nat) (x k)).slopes j) = Pi.single k 1 := by
    funext j
    simp only [param, Pi.single_apply, Fin.val_inj, eq_comm]
  rw [IsJet, hslopes]
  exact HasJet.var x k

variable [DecidableEq K] [Elementary K]

/-! ## Tangents over a field -/

namespace Tangent

variable (t u : Tangent K) (k : Nat)

theorem slopes_add : (t + u).slopes k = t.slopes k + u.slopes k := by
  change 1 * t.slopes k + 1 * u.slopes k = _
  rw [one_mul, one_mul]

theorem slopes_sub : (t - u).slopes k = t.slopes k - u.slopes k := by
  change 1 * t.slopes k + -1 * u.slopes k = _
  ring

theorem slopes_mul :
    (t * u).slopes k = u.value * t.slopes k + t.value * u.slopes k :=
  rfl

theorem slopes_div :
    (t / u).slopes k = (t.slopes k * u.value - t.value * u.slopes k) / u.value ^ 2 := by
  change 1 / u.value * t.slopes k + -(t.value / u.value) / u.value * u.slopes k = _
  by_cases hu : u.value = 0
  · simp [hu]
  · field_simp
    ring

theorem slopes_neg : (-t).slopes k = -t.slopes k :=
  neg_one_mul _

theorem slopes_inv : t⁻¹.slopes k = -t.slopes k / t.value ^ 2 := by
  change -(1 / t.value) * (1 / t.value) * t.slopes k = _
  by_cases ht : t.value = 0
  · simp [ht]
  · field_simp

variable {t u k}

theorem slopes_foldl_eq_zero {ts : List (Tangent K)} (ht : t.slopes k = 0)
    (hts : ∀ u ∈ ts, u.slopes k = 0) : (ts.foldl (· + ·) t).slopes k = 0 := by
  induction ts generalizing t with
  | nil => exact ht
  | cons u us ih =>
    refine ih ?_ fun v hv => hts v (List.mem_cons_of_mem _ hv)
    rw [slopes_add, ht, hts u List.mem_cons_self, add_zero]

end Tangent

/-! ## Unused parameters -/

theorem Arithmetic.slopes_eval_eq_zero (f : Arithmetic) {t u : Tangent K} {k : Nat}
    (ht : t.slopes k = 0) (hu : u.slopes k = 0) : (f.eval t u).slopes k = 0 := by
  cases f with
  | add => rw [eval, Tangent.slopes_add, ht, hu, add_zero]
  | sub => rw [eval, Tangent.slopes_sub, ht, hu, sub_zero]
  | mul => rw [eval, Tangent.slopes_mul, ht, hu, mul_zero, mul_zero, add_zero]
  | div => rw [eval, Tangent.slopes_div, ht, hu, zero_mul, mul_zero, sub_zero, zero_div]

theorem Instruction.slopes_eval_eq_zero (i : Instruction K n) {env : Fin n → Tangent K} {k : Nat}
    (h : ∀ x, i.Uses x → (env x).slopes k = 0) :
    (i.eval Tangent.constant env).slopes k = 0 := by
  cases i with
  | constant c => rfl
  | neg x => rw [eval, Tangent.slopes_neg, h x rfl, neg_zero]
  | recip x => rw [eval, Tangent.slopes_inv, h x rfl, neg_zero, zero_div]
  | arithmetic f x y => exact f.slopes_eval_eq_zero (h x (.inl rfl)) (h y (.inr rfl))
  | mulAdd x y z =>
    rw [eval, Tangent.slopes_add, Tangent.slopes_mul, h x (.inl rfl), h y (.inr (.inl rfl)),
      h z (.inr (.inr rfl)), mul_zero, mul_zero, add_zero, add_zero]
  | sum xs =>
    refine Tangent.slopes_foldl_eq_zero rfl fun u hu => ?_
    obtain ⟨x, hx, rfl⟩ := List.mem_map.1 hu
    exact h x hx

/-- A result does not vary with a parameter on which no variable in use depends. -/
theorem StraightLine.slopes_eval_eq_zero (p : StraightLine K n) {env : Fin n → Tangent K} {k : Nat}
    (h : ∀ x, p.Uses x → (env x).slopes k = 0) :
    (p.eval Tangent.constant env).slopes k = 0 := by
  induction p with
  | result x => exact h x rfl
  | bind i rest ih =>
    refine ih fun x hx => ?_
    cases x using Fin.lastCases with
    | last =>
      rw [Fin.snoc_last]
      exact i.slopes_eval_eq_zero fun y hy => h y (.inl hy)
    | cast y =>
      rw [Fin.snoc_castSucc]
      exact h y (.inr hx)
  | assign f x y rest ih =>
    refine ih fun z hz => ?_
    by_cases hzx : z = x
    · subst hzx
      rw [Function.update_self]
      exact f.slopes_eval_eq_zero (h _ (.inl rfl)) (h y (.inr (.inl rfl)))
    · rw [Function.update_of_ne hzx]
      exact h z (.inr (.inr hz))

/-! ## Jets of the rational function -/

theorem Arithmetic.value_eval (f : Arithmetic) (t u : Tangent K) :
    (f.eval t u).value = f.eval t.value u.value := by
  cases f <;> rfl

/-- The value of a meaning over tangents is the meaning of the values. -/
theorem Instruction.value_eval (i : Instruction K n) (env : Fin n → Tangent K) :
    (i.eval Tangent.constant env).value = i.eval id (Tangent.value ∘ env) := by
  have hsum (ts : List (Tangent K)) (t : Tangent K) :
      (ts.foldl (· + ·) t).value = (ts.map Tangent.value).foldl (· + ·) t.value := by
    rw [List.foldl_map, List.foldl_hom Tangent.value]
    exact fun _ _ => rfl
  cases i with
  | recip x => exact one_div _
  | arithmetic f x y => exact f.value_eval _ _
  | sum xs => exact (hsum _ _).trans (by rw [List.map_map]; rfl)
  | _ => rfl

section Jets

variable {m : Nat} {x : Fin m → K} {t u : Tangent K} {r s : RationalFunction K (Fin m)}

theorem Tangent.IsJet.add (ht : t.IsJet r x) (hu : u.IsJet s x) : (t + u).IsJet (r + s) x := by
  simp only [IsJet, slopes_add]
  exact HasJet.add ht hu

theorem Tangent.IsJet.mul (ht : t.IsJet r x) (hu : u.IsJet s x) : (t * u).IsJet (r * s) x :=
  HasJet.mul ht hu

theorem Tangent.IsJet.neg (ht : t.IsJet r x) : (-t).IsJet (-r) x := by
  simp only [IsJet, slopes_neg]
  exact HasJet.neg ht

theorem Tangent.IsJet.inv (ht : t.IsJet r x) (hne : t.value ≠ 0) : t⁻¹.IsJet r⁻¹ x := by
  have hvalue : t⁻¹.value = t.value⁻¹ := one_div _
  simp only [IsJet, hvalue, slopes_inv]
  exact HasJet.inv ht hne

theorem Tangent.IsJet.foldl_add {ts : List (Tangent K)} {rs : List (RationalFunction K (Fin m))}
    (ht : t.IsJet r x) (hts : List.Forall₂ (fun t r => t.IsJet r x) ts rs) :
    (ts.foldl (· + ·) t).IsJet (rs.foldl (· + ·) r) x := by
  induction hts generalizing t r with
  | nil => exact ht
  | cons hu _ ih => exact ih (ht.add hu)

theorem Arithmetic.isJet_eval (f : Arithmetic) (ht : t.IsJet r x) (hu : u.IsJet s x)
    (hdef : f.Defined u.value) : (f.eval t u).IsJet (f.eval r s) x := by
  cases f with
  | add => exact ht.add hu
  | sub =>
    simp only [eval, Tangent.IsJet, Tangent.slopes_sub]
    exact HasJet.sub ht hu
  | mul => exact ht.mul hu
  | div =>
    simp only [eval, Tangent.IsJet, Tangent.slopes_div]
    exact HasJet.div ht hu hdef

theorem Instruction.isJet_eval (i : Instruction K n) {env : Fin n → Tangent K}
    {rats : Fin n → RationalFunction K (Fin m)} (h : ∀ k, (env k).IsJet (rats k) x)
    (hdef : i.Defined (Tangent.value ∘ env)) :
    (i.eval Tangent.constant env).IsJet (i.eval (fun c => ofPolynomial (C c)) rats) x := by
  cases i with
  | constant c => exact HasJet.const x c
  | neg y => exact (h y).neg
  | recip y => exact (h y).inv hdef
  | arithmetic f y z => exact f.isJet_eval (h y) (h z) hdef
  | mulAdd y z w => exact ((h y).mul (h z)).add (h w)
  | sum ys =>
    have hzero : (0 : Tangent K).IsJet (0 : RationalFunction K (Fin m)) x := by
      have hconst := HasJet.const x (0 : K)
      rwa [map_zero, ofPolynomial, map_zero] at hconst
    refine hzero.foldl_add ?_
    rw [List.forall₂_map_left_iff, List.forall₂_map_right_iff, List.forall₂_same]
    exact fun y _ => h y

/-- **Where no divisor is zero, a program carries jets to jets.** -/
theorem StraightLine.isJet_eval (p : StraightLine K n) {env : Fin n → Tangent K}
    {rats : Fin n → RationalFunction K (Fin m)} (h : ∀ k, (env k).IsJet (rats k) x)
    (hdef : p.Defined (Tangent.value ∘ env)) :
    (p.eval Tangent.constant env).IsJet (p.eval (fun c => ofPolynomial (C c)) rats) x := by
  induction p with
  | result y => exact h y
  | bind i rest ih =>
    obtain ⟨hi, hrest⟩ := hdef
    rw [← i.value_eval, ← Fin.comp_snoc Tangent.value] at hrest
    refine ih (fun k => ?_) hrest
    cases k using Fin.lastCases with
    | last => simpa only [Fin.snoc_last] using i.isJet_eval h hi
    | cast k => simpa only [Fin.snoc_castSucc] using h k
  | assign f y z rest ih =>
    obtain ⟨hf, hrest⟩ := hdef
    rw [Function.comp_apply, Function.comp_apply,
      ← f.value_eval, ← Function.comp_update] at hrest
    refine ih (fun k => ?_) hrest
    by_cases hk : k = y
    · subst hk
      simpa only [Function.update_self] using f.isJet_eval (h k) (h z) hf
    · simpa only [Function.update_of_ne hk] using h k

end Jets

/-! ## The gradient -/

/-- The gradient entry point delivers the meaning of the program over tangents. -/
theorem StraightLine.logProbGrad_eq_eval {P : Type → Type} [Container P]
    (space : ParameterSpace) (line : Mode → List Int → StraightLine K space.size) (home : Home)
    (params : P K) (ints : List Int) (mode : Mode) (buffer : P K) (w : Workspace K)
    (hsize : space.size ≤ (Container.toList params).length) :
    let model : Model K := ⟨space, .templated (density line)⟩
    let t := (line mode ints).eval Tangent.constant fun k => .param k (Container.toList params)[k]
    (model.logProbGrad home params ints mode buffer w).1 =
      (Container.overwrite buffer ((List.range space.size).map t.slopes), .ok t.value) := by
  intro model t
  have hlen : ((Container.toList params).take space.size).length = space.size := by
    rw [List.length_take]
    exact Nat.min_eq_left hsize
  have hrun (w : Workspace K) : (runDensity .forward (density line) mode ints
      (Tangent.params ((Container.toList params).take space.size)) w).1 = .ok t := by
    rw [runDensity_eq line mode ints hlen]
    simp only [Fin.getElem_fin, List.getElem_take]
    rfl
  rw [Model.logProbGrad_eq_forward space (scopeFree_density line) home hsize ints mode buffer w,
    Run.routed_eq_ok hrun]
  rfl

/-- **Gradients of rational densities are exact.** For a model of any straight-line programs, one
for every mode and every choice of discrete parameters, and parameters at which no divisor is zero,
the value is that of the rational function which the program computes, and the gradient is made of
its formal partial derivatives, in the order of the parameters; a parameter that is not used has
the derivative zero. -/
theorem StraightLine.logProbGrad_eq_pderiv {P : Type → Type} [Container P] [LawfulContainer P]
    (space : ParameterSpace) (line : Mode → List Int → StraightLine K space.size) (home : Home)
    (params : P K) (ints : List Int) (mode : Mode) (buffer : P K) (w : Workspace K)
    (hsize : space.size ≤ (Container.toList params).length)
    (hdef : (line mode ints).Defined fun k => (Container.toList params)[k]) :
    let model : Model K := ⟨space, .templated (density line)⟩
    let r := (line mode ints).rational
    let x : Fin space.size → K := fun k => (Container.toList params)[k]
    let out := (model.logProbGrad home params ints mode buffer w).1
    r.RegularAt x ∧ (∀ k, (r.pderiv k).RegularAt x) ∧ out.2 = .ok (r.valueAt x) ∧
      Container.toList out.1 = List.ofFn (fun k => (r.pderiv k).valueAt x) ∧
      ∀ k, ¬(line mode ints).Uses k → (Container.toList out.1)[(k : Nat)]? = some 0 := by
  intro model r x out
  let t := (line mode ints).eval Tangent.constant fun k => .param k (x k)
  have hjet : t.IsJet r x := (line mode ints).isJet_eval (Tangent.isJet_param x) hdef
  have hout : out = (Container.overwrite buffer ((List.range space.size).map t.slopes),
      .ok t.value) :=
    logProbGrad_eq_eval space line home params ints mode buffer w hsize
  have hlist : Container.toList out.1 = List.ofFn fun k : Fin space.size => t.slopes k := by
    rw [hout, LawfulContainer.toList_overwrite, List.ofFn_eq_map, ← List.map_coe_finRange_eq_range,
      List.map_map]
    rfl
  refine ⟨hjet.regularAt, hjet.pderiv_regularAt, ?_, ?_, fun k hk => ?_⟩
  · rw [hout, hjet.valueAt]
  · simp only [hlist, hjet.valueAt_pderiv]
  · have hzero : t.slopes k = 0 := by
      refine (line mode ints).slopes_eval_eq_zero fun j hj => if_neg fun hjk => hk ?_
      rwa [← Fin.ext hjk]
    rw [hlist, List.getElem?_ofFn, dif_pos k.isLt, Fin.eta, hzero]

/-- Exact rational numbers as scalars. The functions that leave the rational numbers are zero; no
straight-line program calls them. -/
instance exactRational : Elementary ℚ where
  less x y := x < y
  atMost x y := x ≤ y
  isNaN _ := false
  isNegative x := x < 0
  abs x := |x|
  floor x := ⌊x⌋
  ceil x := ⌈x⌉
  round x := if x < 0 then ⌈x - 1 / 2⌉ else ⌊x + 1 / 2⌋
  trunc x := if x < 0 then ⌈x⌉ else ⌊x⌋
  signum x := if x < 0 then -1 else 1
  rem x y := x - y * (if x / y < 0 then ⌈x / y⌉ else ⌊x / y⌋)
  sqrt _ := 0
  cbrt _ := 0
  hypot _ _ := 0
  powf _ _ := 0
  exp _ := 0
  exp2 _ := 0
  expm1 _ := 0
  ln _ := 0
  log2 _ := 0
  log10 _ := 0
  log1p _ := 0
  sin _ := 0
  cos _ := 0
  tan _ := 0
  asin _ := 0
  acos _ := 0
  atan _ := 0
  atan2 _ _ := 0
  sinh _ := 0
  cosh _ := 0
  tanh _ := 0
  asinh _ := 0
  acosh _ := 0
  atanh _ := 0
  ln2 := 0
  ln10 := 0
  pi := 0

/-- Twice the square of `x / y`, and `y` added to it. -/
def squaredQuotient : StraightLine ℚ 2 :=
  .bind (.arithmetic .div 0 1) <| .assign .mul 2 2 <| .bind (.sum [2, 1, 2]) <| .result 3

theorem StraightLine.logProbGrad_squaredQuotient :
    let line : Mode → List Int → StraightLine ℚ Rosenbrock.space.size := fun _ _ => squaredQuotient
    let x : Fin Rosenbrock.space.size → ℚ := fun k => [1, 2, 5][k]
    let model : Model ℚ := ⟨Rosenbrock.space, .templated (density line)⟩
    let out := (model.logProbGrad .own [1, 2, 5] [] .plain [] {}).1
    squaredQuotient.Defined x ∧ out.2 = .ok ((line .plain []).rational.valueAt x) ∧
      out.1 = List.ofFn fun k => ((line .plain []).rational.pderiv k).valueAt x := by
  intro line x model out
  have hdef : squaredQuotient.Defined x := ⟨two_ne_zero, trivial, trivial, trivial⟩
  obtain ⟨-, -, hvalue, hslopes, -⟩ := logProbGrad_eq_pderiv Rosenbrock.space line .own [1, 2, 5] []
    .plain [] {} (by decide) hdef
  -- unfolding nothing: the comparison must not carry out the evaluation
  refine ⟨hdef, ?_, ?_⟩
  · with_reducible_and_instances exact hvalue
  · with_reducible_and_instances exact hslopes

end LogDensity
