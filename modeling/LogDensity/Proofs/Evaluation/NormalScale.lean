import LogDensity.Proofs.Evaluation.CentralDifference
import LogDensity.Proofs.Evaluation.Gradient
import LogDensity.Proofs.Program.StraightLine
import LogDensity.Proofs.Program.Writing

/-!
# The gradient for normal data

The density of `NormalScale` goes through the observations one after the other and subtracts a term
for each from the same accumulator, dividing by the same scale; so the derivatives with respect to
location and scale collect a contribution from every observation. Under `forward` the loop is a
fold over tangents (`NormalScale.tangent`), and one observation adds its weight to either derivative
(`NormalScale.slopes_observed`).

* `NormalScale.logProbGrad_eq`: for all data the gradient evaluation delivers the value and the
  gradient of the textbook, in every mode.
-/

namespace LogDensity

section Steps

variable {K : Type} [Scalar K] {env : Array (Tangent K)}

/-- A loop over steps that deliver, whatever results were added before, delivers the fold. -/
theorem Step.Delivers.foldlM {β : Type} {f : Slot K → β → Step K (Slot K)}
    {g : Tangent K → β → Tangent K}
    (hf : ∀ env', (∀ y u, Tangent.Named env y u → Tangent.Named env' y u) → ∀ x t b,
      Tangent.Named env' x t → (f x b).Delivers env' (g t b))
    {x : Slot K} {t : Tangent K} (hx : Tangent.Named env x t) (bs : List β) :
    (bs.foldlM f x).Delivers env (bs.foldl g t) := by
  induction bs generalizing env x t with
  | nil => exact delivers_pure hx
  | cons b bs ih =>
    rw [List.foldl_cons]
    exact (hf env (fun _ _ h => h) x t b hx).bind fun env' z hkeep hz =>
      ih (fun env'' hkeep' => hf env'' fun y u h => hkeep' y u (hkeep y u h)) hz

/-- A program whose steps deliver a tangent ends with it. -/
theorem Step.Delivers.fst_run {s : Step K (Slot K)} {t : Tangent K} (hs : s.Delivers env t)
    (w : Workspace K) : (s.toProgram.run .forward env w).1 = .ok t := by
  obtain ⟨env', x, -, hx, hrun⟩ := hs .result w
  refine (congrArg Prod.fst hrun).trans ?_
  rw [Program.run, Step.fetch_eq hx]
  rfl

end Steps

namespace NormalScale

section Tangents

variable {K : Type} [Scalar K]

/-- What is left of the log density after one observation. -/
def observed (mu sigma lp : Tangent K) (y : K) : Tangent K :=
  lp - .constant half * ((.constant y - mu) / sigma) * ((.constant y - mu) / sigma)

/-- The logarithm of the constant factor of the density of `n` observations. -/
def normalizer (n : K) : K :=
  half * n * Elementary.ln (((2 : Int) : K) * Elementary.pi)

/-- The log density as a tangent, given the scale. -/
def tangent (ys : List K) (mode : Mode) (mu logSigma sigma : Tangent K) : Tangent K :=
  let n : K := ((ys.length : Int) : K)
  let lp := ys.foldl (observed mu sigma) (-logSigma * .constant n)
  let lp := if mode.propto then lp else lp - .constant (normalizer n)
  if mode.jacobian then lp + logSigma else lp

/-- The steps of the density that come after those for the observations. -/
def finish (n : K) (mode : Mode) (logSigma lp : Slot K) : Step K (Slot K) := do
  let lp ← if mode.propto then pure lp else Step.sub lp (← Step.constant (normalizer n))
  if mode.jacobian then Step.add lp logSigma else pure lp

/-- The steps of the density that come after the scale was computed and perhaps reported. -/
def scaled (ys : List K) (mode : Mode) (mu logSigma sigma : Slot K) : Step K (Slot K) := do
  let n : K := ((ys.length : Int) : K)
  let lp ← Step.mul (← Step.neg logSigma) (← Step.constant n)
  let lp ← ys.foldlM (observe mu sigma) lp
  finish n mode logSigma lp

theorem program_eq [Printable K] (ys : List K) (chatty : Bool) (mode : Mode) (mu logSigma : Slot K)
    (ints : List Int) :
    program ys chatty mode [mu, logSigma] ints = Step.unary .exp logSigma fun sigma =>
      if chatty then .write s!"sigma = {Printable.fixed 3 sigma.primal}" fun _ =>
        (scaled ys mode mu logSigma sigma).toProgram
      else (scaled ys mode mu logSigma sigma).toProgram := by
  cases chatty <;> obtain ⟨_ | _, _ | _⟩ := mode <;> rfl

variable {env : Array (Tangent K)} {mu sigma lp logSigma : Slot K} {m s l t : Tangent K}

theorem delivers_observe (hmu : Tangent.Named env mu m) (hsigma : Tangent.Named env sigma s)
    (hlp : Tangent.Named env lp t) (y : K) :
    (observe mu sigma lp y).Delivers env (observed m s t y) :=
  (Step.delivers_constant y).bind fun _ _ h₁ hy =>
  (Step.delivers_binary .sub hy (h₁ _ _ hmu)).bind fun _ _ h₂ hd =>
  (Step.delivers_binary .div hd (h₂ _ _ (h₁ _ _ hsigma))).bind fun _ _ h₃ hz =>
  (Step.delivers_constant half).bind fun _ _ h₄ hc =>
  (Step.delivers_binary .mul hc (h₄ _ _ hz)).bind fun _ _ h₅ hcz =>
  (Step.delivers_binary .mul hcz (h₅ _ _ (h₄ _ _ hz))).bind fun _ _ h₆ hq =>
  Step.delivers_binary .sub (h₆ _ _ (h₅ _ _ (h₄ _ _ (h₃ _ _ (h₂ _ _ (h₁ _ _ hlp)))))) hq

theorem delivers_finish (hlp : Tangent.Named env lp t) (hlog : Tangent.Named env logSigma l)
    (n : K) (mode : Mode) :
    let t' := if mode.propto then t else t - .constant (normalizer n)
    (finish n mode logSigma lp).Delivers env (if mode.jacobian then t' + l else t') := by
  obtain ⟨propto, jacobian⟩ := mode
  cases propto with
  | true =>
    cases jacobian with
    | true => exact Step.delivers_binary .add hlp hlog
    | false => exact Step.delivers_pure hlp
  | false =>
    refine (Step.delivers_constant (normalizer n)).bind fun _ _ h₁ hc =>
      (Step.delivers_binary .sub (h₁ _ _ hlp) hc).bind fun _ _ h₂ hlp' => ?_
    cases jacobian with
    | true => exact Step.delivers_binary .add hlp' (h₂ _ _ (h₁ _ _ hlog))
    | false => exact Step.delivers_pure hlp'

theorem delivers_scaled (hmu : Tangent.Named env mu m) (hlog : Tangent.Named env logSigma l)
    (hsigma : Tangent.Named env sigma s) (ys : List K) (mode : Mode) :
    (scaled ys mode mu logSigma sigma).Delivers env (tangent ys mode m l s) := by
  refine (Step.delivers_unary (f := .neg) nofun hlog).bind fun _ _ h₁ hneg =>
    (Step.delivers_constant _).bind fun _ _ h₂ hn =>
    (Step.delivers_binary .mul (h₂ _ _ hneg) hn).bind fun env' lp h₃ hlp => ?_
  have hkeep (y u) (hy : Tangent.Named env y u) : Tangent.Named env' y u :=
    h₃ _ _ (h₂ _ _ (h₁ _ _ hy))
  have hloop := Step.Delivers.foldlM (fun _ h _ _ y hx =>
    delivers_observe (h _ _ (hkeep _ _ hmu)) (h _ _ (hkeep _ _ hsigma)) hx y) hlp ys
  exact hloop.bind fun _ _ h₄ hlp' => delivers_finish hlp' (h₄ _ _ (hkeep _ _ hlog)) _ mode

/-- Under `forward` the density delivers its tangent, whether it reports its scale or not. -/
theorem runDensity_eq [Printable K] (ys : List K) (chatty : Bool) (mode : Mode) (ints : List Int)
    (mu logSigma : K) (w : Workspace K) :
    let m := Tangent.param 0 mu
    let l := Tangent.param 1 logSigma
    (runDensity .forward (program ys chatty) mode ints [m, l] w).1 =
      .ok (tangent ys mode m l (.unary .exp l)) := by
  intro m l
  have hmu : Tangent.Named #[m, l] ⟨0, mu⟩ m := ⟨rfl, rfl⟩
  have hlog : Tangent.Named #[m, l] ⟨1, logSigma⟩ l := ⟨rfl, rfl⟩
  have hslots : Interpretation.forward.slots [m, l] = [⟨0, mu⟩, ⟨1, logSigma⟩] := rfl
  have hexp : Unary.exp ≠ .powi Int32.minValue := Unary.noConfusion
  rw [runDensity, hslots, program_eq]
  obtain ⟨env, sigma, hkeep, hsigma, hrun⟩ := Step.delivers_unary hexp hlog _ w
  refine (congrArg Prod.fst hrun).trans ?_
  have hscaled := delivers_scaled (hkeep _ _ hmu) (hkeep _ _ hlog) hsigma ys mode
  cases chatty with
  | false => exact hscaled.fst_run w
  | true =>
    simp only [if_true, Program.run]
    rw [Run.bind_of_ok (Run.write_eq ..)]
    exact hscaled.fst_run _

end Tangents

section Derivatives

variable {K : Type} [Field K] [DecidableEq K] [Elementary K]

/-- The sum of the squared deviations of data from a location. -/
def squares (mu : K) (ys : List K) : K :=
  (ys.map fun y => (y - mu) ^ 2).sum

/-- The sum of the deviations of data from a location. -/
def deviations (mu : K) (ys : List K) : K :=
  (ys.map fun y => y - mu).sum

theorem value_observed (mu sigma lp : Tangent K) (y : K) :
    (observed mu sigma lp y).value =
      lp.value - 1 / 2 * ((y - mu.value) ^ 2 / sigma.value ^ 2) := by
  have hvalue : (observed mu sigma lp y).value =
    lp.value - half * ((y - mu.value) / sigma.value) * ((y - mu.value) / sigma.value) := rfl
  rw [hvalue, half, Int.cast_ofNat]
  ring

/-- One observation adds its deviation to the derivative along the location, and the square of it
to that along the logarithm of the scale. -/
theorem slopes_observed (htwo : (2 : K) ≠ 0) {mu logSigma sigma : Tangent K}
    (hslope : ∀ k, sigma.slopes k = sigma.value * logSigma.slopes k) (hne : sigma.value ≠ 0)
    (lp : Tangent K) (y : K) (k : Nat) :
    (observed mu sigma lp y).slopes k = lp.slopes k +
      ((y - mu.value) / sigma.value ^ 2 * mu.slopes k +
        (y - mu.value) ^ 2 / sigma.value ^ 2 * logSigma.slopes k) := by
  let z : Tangent K := (.constant y - mu) / sigma
  have hvalue : z.value = (y - mu.value) / sigma.value := rfl
  have hz : z.slopes k =
      -(mu.slopes k / sigma.value + (y - mu.value) / sigma.value * logSigma.slopes k) := by
    rw [Tangent.slopes_div, Tangent.slopes_sub, hslope]
    change ((0 - mu.slopes k) * sigma.value -
      (y - mu.value) * (sigma.value * logSigma.slopes k)) / sigma.value ^ 2 = _
    field_simp
    ring
  have hsquare : (Tangent.constant half * z * z).slopes k = z.value * z.slopes k := by
    rw [Tangent.slopes_mul, Tangent.slopes_mul]
    change z.value * (z.value * 0 + half * z.slopes k) + half * z.value * z.slopes k = _
    rw [half, Int.cast_ofNat]
    field_simp
    ring
  rw [observed, Tangent.slopes_sub, hsquare, hz, hvalue]
  ring

/-- All observations together. -/
theorem foldl_observed (htwo : (2 : K) ≠ 0) (mu : Tangent K) {logSigma sigma : Tangent K}
    (hslope : ∀ k, sigma.slopes k = sigma.value * logSigma.slopes k) (hne : sigma.value ≠ 0)
    (ys : List K) (lp : Tangent K) :
    (ys.foldl (observed mu sigma) lp).value =
        lp.value - 1 / 2 * (squares mu.value ys / sigma.value ^ 2) ∧
      ∀ k, (ys.foldl (observed mu sigma) lp).slopes k = lp.slopes k +
        (deviations mu.value ys / sigma.value ^ 2 * mu.slopes k +
          squares mu.value ys / sigma.value ^ 2 * logSigma.slopes k) := by
  induction ys generalizing lp with
  | nil => simp [squares, deviations]
  | cons y ys ih =>
    obtain ⟨hvalue, hslopes⟩ := ih (observed mu sigma lp y)
    have hsquares : squares mu.value (y :: ys) = (y - mu.value) ^ 2 + squares mu.value ys :=
      List.sum_cons
    have hdeviations : deviations mu.value (y :: ys) = (y - mu.value) + deviations mu.value ys :=
      List.sum_cons
    rw [List.foldl_cons, hvalue, value_observed, hsquares, hdeviations]
    refine ⟨by ring, fun k => ?_⟩
    rw [hslopes, slopes_observed htwo hslope hne]
    ring

/-- The log density of normal data, up to what the mode leaves out. -/
def logDensity (mu logSigma : K) (ys : List K) (mode : Mode) : K :=
  -(1 / 2) * (squares mu ys / Elementary.exp logSigma ^ 2) - ys.length * logSigma -
    (if mode.propto then 0
      else (ys.length : K) * (1 / 2 * Elementary.ln (2 * Elementary.pi))) +
    if mode.jacobian then logSigma else 0

/-- Its derivatives with respect to the location and the logarithm of the scale. -/
def gradient (mu logSigma : K) (ys : List K) (mode : Mode) : List K :=
  [deviations mu ys / Elementary.exp logSigma ^ 2,
    squares mu ys / Elementary.exp logSigma ^ 2 - ys.length + if mode.jacobian then 1 else 0]

/-- Neither the constant term nor the mode matters to the loop. -/
theorem tangent_eq (ys : List K) (mode : Mode) (mu logSigma sigma : Tangent K) :
    let n : K := ((ys.length : Int) : K)
    let lp := ys.foldl (observed mu sigma) (-logSigma * .constant n)
    let t := tangent ys mode mu logSigma sigma
    t.value = lp.value - (if mode.propto then 0 else normalizer n) +
        (if mode.jacobian then logSigma.value else 0) ∧
      ∀ k, t.slopes k = lp.slopes k + if mode.jacobian then logSigma.slopes k else 0 := by
  intro n lp t
  have hslopes (c : K) (k : Nat) : (lp - .constant c).slopes k = lp.slopes k :=
    (Tangent.slopes_sub ..).trans (sub_zero _)
  obtain ⟨_ | _, _ | _⟩ := mode
  · exact ⟨(add_zero _).symm, fun k => (hslopes _ k).trans (add_zero _).symm⟩
  · exact ⟨rfl, fun k => (Tangent.slopes_add ..).trans (congrArg (· + _) (hslopes _ k))⟩
  · exact ⟨((add_zero _).trans (sub_zero _)).symm, fun k => (add_zero _).symm⟩
  · exact ⟨congrArg (· + _) (sub_zero _).symm, fun k => Tangent.slopes_add ..⟩

theorem normalizer_eq (n : Nat) :
    normalizer ((n : Int) : K) = n * (1 / 2 * Elementary.ln (2 * Elementary.pi)) := by
  rw [normalizer, half, Int.cast_natCast, Int.cast_ofNat]
  ring

/-- The tangent of the density has the value and the derivatives that were to be computed. -/
theorem tangent_spec (htwo : (2 : K) ≠ 0) (mu : K) {logSigma : K}
    (hscale : Elementary.exp logSigma ≠ 0) (ys : List K) (mode : Mode) :
    let l := Tangent.param 1 logSigma
    let t := tangent ys mode (.param 0 mu) l (.unary .exp l)
    t.value = logDensity mu logSigma ys mode ∧
      (List.range 2).map t.slopes = gradient mu logSigma ys mode := by
  intro l t
  let n : K := ((ys.length : Int) : K)
  let s : K := Elementary.exp logSigma
  have hn : n = ys.length := Int.cast_natCast _
  have hnormal : normalizer n = ys.length * (1 / 2 * Elementary.ln (2 * Elementary.pi)) :=
    normalizer_eq ys.length
  have hslope (k : Nat) : (Tangent.unary .exp l).slopes k =
    (Tangent.unary .exp l).value * l.slopes k := rfl
  obtain ⟨hvalue, hslopes⟩ := foldl_observed htwo (.param 0 mu) hslope hscale ys (-l * .constant n)
  obtain ⟨hvalue', hslopes'⟩ := tangent_eq ys mode (.param 0 mu) l (.unary .exp l)
  constructor
  · calc t.value
        = _ := hvalue'
      _ = -logSigma * n - 1 / 2 * (squares mu ys / s ^ 2) -
          (if mode.propto then 0 else normalizer n) + (if mode.jacobian then logSigma else 0) :=
        congrArg (· - _ + _) hvalue
      _ = logDensity mu logSigma ys mode := by
        rw [hnormal, hn, logDensity]
        ring
  · have hstart (k : Nat) : (-l * .constant n : Tangent K).slopes k = -n * l.slopes k := by
      rw [Tangent.slopes_mul, Tangent.slopes_neg]
      change n * -l.slopes k + -logSigma * 0 = _
      ring
    have hentry (k : Nat) : t.slopes k = -n * l.slopes k +
        (deviations mu ys / s ^ 2 * (Tangent.param 0 mu).slopes k +
          squares mu ys / s ^ 2 * l.slopes k) + if mode.jacobian then l.slopes k else 0 := by
      rw [← hstart]
      exact (hslopes' k).trans (congrArg (· + _) (hslopes k))
    have hlocation : t.slopes 0 = deviations mu ys / s ^ 2 := by
      rw [hentry]
      simp [l, Tangent.param]
    have hspread : t.slopes 1 =
        squares mu ys / s ^ 2 - ys.length + if mode.jacobian then 1 else 0 := by
      rw [hentry]
      simp only [l, hn, Tangent.param, if_true, zero_ne_one, if_false]
      ring
    exact congrArg₂ (fun x y => [x, y]) hlocation hspread

variable [Printable K] {P : Type → Type} [Container P] [LawfulContainer P]

/-- **The gradient for normal data is exact.** For any data, location and scale, in every mode, the
gradient evaluation delivers the log density and its derivatives. So what is left out of the value
up to a constant never changes the gradient, and the Jacobian adds one to the second entry. -/
theorem logProbGrad_eq (htwo : (2 : K) ≠ 0) (ys : List K) (chatty : Bool) (home : Home)
    {params : P K} {mu logSigma : K} {extra : List K}
    (hparams : Container.toList params = mu :: logSigma :: extra)
    (hscale : Elementary.exp logSigma ≠ 0) (ints : List Int) (buffer : P K) (w : Workspace K) :
    let model : Model K := ⟨space, .templated (program ys chatty)⟩
    let s := Elementary.exp logSigma
    let n : K := ys.length
    let squares := (ys.map fun y => (y - mu) ^ 2).sum / s ^ 2
    let out (mode : Mode) := (model.logProbGrad home params ints mode buffer w).1
    (∀ mode, (out mode).2 = .ok (-(1 / 2) * squares - n * logSigma -
        (if mode.propto then 0 else n * (1 / 2 * Elementary.ln (2 * Elementary.pi))) +
        if mode.jacobian then logSigma else 0)) ∧
      (∀ mode, Container.toList (out mode).1 = [(ys.map fun y => y - mu).sum / s ^ 2,
        squares - n + if mode.jacobian then 1 else 0]) ∧
      (∀ jacobian, (out ⟨true, jacobian⟩).1 = (out ⟨false, jacobian⟩).1) ∧
      ∀ propto, Container.toList (out ⟨propto, true⟩).1 =
        List.zipWith (· + ·) (Container.toList (out ⟨propto, false⟩).1) [0, 1] := by
  intro model s n squares out
  have hout (mode : Mode) : out mode =
      (Container.overwrite buffer (gradient mu logSigma ys mode),
        .ok (logDensity mu logSigma ys mode)) := by
    let l : Tangent K := .param 1 logSigma
    let t := tangent ys mode (.param 0 mu) l (.unary .exp l)
    obtain ⟨hvalue, hgradient⟩ := tangent_spec htwo mu hscale ys mode
    have hsize : space.size ≤ (Container.toList params).length := by
      rw [hparams]
      exact Nat.le_add_left 2 extra.length
    have htake : (Container.toList params).take space.size = [mu, logSigma] := by
      rw [hparams]
      rfl
    have hrun (w : Workspace K) : (runDensity .forward (program ys chatty) mode ints
        (Tangent.params ((Container.toList params).take space.size)) w).1 = .ok t := by
      rw [htake]
      exact runDensity_eq ys chatty mode ints mu logSigma w
    have hforward := Model.logProbGrad_eq_forward space (scopeFree_program ys chatty) home hsize
      ints mode buffer w
    rw [Run.routed_eq_ok hrun] at hforward
    refine hforward.trans ?_
    rw [← hvalue, ← hgradient]
    rfl
  have hgradient (mode : Mode) : Container.toList (out mode).1 = gradient mu logSigma ys mode := by
    rw [hout, LawfulContainer.toList_overwrite]
  refine ⟨fun mode => by rw [hout]; rfl, hgradient, fun jacobian => ?_, fun propto => ?_⟩
  · rw [hout, hout]
    rfl
  · rw [hgradient, hgradient]
    simp [gradient]

end Derivatives

/-- Three observations, with the scale one. The exponential is the linear one, which is right at
zero. -/
theorem logProbGrad_threeObservations :
    let _ : Elementary ℚ := { exactRational with exp := fun x => 1 + x }
    let model : Model ℚ := ⟨space, .templated (program [1, 2, 4] true)⟩
    let params := Dense.strided ([1, 0, 7] : List ℚ)
    let out := (model.logProbGrad .own params [] .proptoJacobian (Dense.contiguous []) {}).1
    (2 : ℚ) ≠ 0 ∧ Container.toList params = 1 :: 0 :: [7] ∧ Elementary.exp (0 : ℚ) ≠ 0 ∧
      out.2 = .ok (-5) ∧ Container.toList out.1 = [4, 8] := by
  intro _ model params out
  have htwo : (2 : ℚ) ≠ 0 := two_ne_zero
  have hparams : Container.toList params = 1 :: 0 :: [7] := Dense.toList_strided _
  have hscale : Elementary.exp (0 : ℚ) ≠ 0 := by
    change (1 + 0 : ℚ) ≠ 0
    norm_num
  obtain ⟨hvalue, hgradient, -, -⟩ := logProbGrad_eq htwo [1, 2, 4] true .own hparams hscale []
    (Dense.contiguous []) {}
  have hone : Elementary.exp (0 : ℚ) = 1 := add_zero 1
  -- unfolding nothing: the comparison must not carry out the evaluation
  refine ⟨htwo, hparams, hscale, ?_, ?_⟩
  · with_reducible_and_instances
      refine (hvalue .proptoJacobian).trans (congrArg Except.ok ?_)
    rw [hone]
    norm_num [Mode.proptoJacobian]
  · with_reducible_and_instances
      refine (hgradient .proptoJacobian).trans (congrArg₂ (fun x y => [x, y]) ?_ ?_)
    · rw [hone]
      norm_num
    · rw [hone]
      norm_num [Mode.proptoJacobian]

end NormalScale

end LogDensity
