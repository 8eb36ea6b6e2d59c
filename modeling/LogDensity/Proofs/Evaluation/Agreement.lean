import LogDensity.Proofs.Evaluation.Shadow

/-!
# The density alone and with its gradient

`logProb` and `logProbGrad` both open a scope, run the density once on fresh variables, and close
the scope; in between, the gradient takes one sweep more. The sweep asks about numbers that are
live, so it cannot fail, and the two evaluations end alike.

* `Model.logProb_eq_logProbGrad`: same outcome, same text, and one run of the density in each.
-/

namespace LogDensity

variable {R : Type} {home : Home} {xs : List R} {density : List (Dual R) → Run R (Dual R)}
  {report : Nat → Run R Unit} {w v : Workspace R}

/-- A value in a scope is that of one run on fresh variables. -/
theorem valueAt_eq_trial (home : Home) (xs : List R) (density : List (Dual R) → Run R (Dual R))
    (w : Workspace R) :
    valueAt home xs density w =
      ((trial home xs density w).1.map fun p => p.2.value,
        (trial home xs density w).2.release home (w.tape home).size) := by
  have hbody : valueAt home xs density =
      Run.withScope home fun _ => trial home xs density >>= fun p => pure p.2.value := by
    simp only [valueAt, trial, bind_assoc, pure_bind]
  simp only [hbody, Run.withScope, Action.withScope, Bind.bind]
  generalize trial home xs density w = out
  obtain ⟨a, v⟩ := out
  cases a <;> rfl

variable [Scalar R]

/-- A gradient in a scope is one run on fresh variables, and a sweep. -/
theorem gradientIn_eq_trial (home : Home) (xs : List R)
    (density : List (Dual R) → Run R (Dual R)) (report : Nat → Run R Unit) (mark : Nat) :
    gradientIn home xs density report mark = (do
      let p ← trial home xs density
      let partials ← Run.gradient home mark p.2 p.1
      report mark
      pure (p.2.value, partials)) := by
  simp only [gradientIn, trial, bind_assoc, pure_bind]

theorem gradientAt_of_error {s : Stop} (h : trial home xs density w = (.error s, v)) :
    gradientAt home xs density report w = (.error s, v.release home (w.tape home).size) := by
  simp only [gradientAt_eq, Run.withScope, Action.withScope, gradientIn_eq_trial, Bind.bind, h]

theorem gradientAt_of_ok {vars : List (Dual R)} {y : Dual R} {partials : List R}
    (h : trial home xs density w = (.ok (vars, y), v))
    (hsweep : (v.tape home).gradient (w.tape home).size y vars = .ok partials)
    (hreport : ∀ mark w, (report mark w).1 = .ok ()) :
    gradientAt home xs density report w = (.ok (y.value, partials),
      (report (w.tape home).size v).2.release home (w.tape home).size) := by
  have hgradient : Run.gradient home (w.tape home).size y vars v = (.ok partials, v) := by
    rw [Run.gradient, Run.onTape_look, hsweep]
    rfl
  have hok := hreport (w.tape home).size v
  simp only [gradientAt_eq, Run.withScope, Action.withScope, gradientIn_eq_trial, Bind.bind, h,
    hgradient]
  generalize report (w.tape home).size v = out at hok
  obtain ⟨a, v'⟩ := out
  obtain rfl : a = .ok () := hok
  rfl

namespace Model

/-- One run of a templated density on fresh variables; its text goes where the outlet says. -/
def freshRun (program : Mode → List (Slot R) → List Int → Program R) (home : Home) (xs : List R)
    (ints : List Int) (mode : Mode) : Run R (List (Dual R) × Dual R) :=
  trial home xs fun vars => Run.routed (runDensity (.recorded home) program mode ints vars)

section Templated

variable {P : Type → Type} [Container P] (space : ParameterSpace)
  (program : Mode → List (Slot R) → List Int → Program R) (params : P R) (ints : List Int)
  (mode : Mode) {w' : Workspace R}

theorem freshRun_spec (home : Home) (xs : List R) (h : w.outlet = w'.outlet) :
    let plain := Run.routed (runDensity .guarded program mode ints xs) w
    let out := freshRun program home xs ints mode w'
    (w'.tape home).Extends (out.2.tape home) ∧ Workspace.Unison w w' plain.2 out.2 ∧
      Outcome.Rel (fun x p => p.2.value = x ∧ p.1.map Dual.value = xs ∧
        ∀ y ∈ p.2 :: p.1, y.Live (out.2.tape home)) plain.1 out.1 :=
  trial_spec h fun hs hvars =>
    Simulation.Agree.routed (fun hs => agree_shadow program mode ints hs hvars) hs

/-- A run on fresh variables ends as on plain numbers. -/
theorem freshRun_eq_guarded (home : Home) (xs : List R) (h : w.outlet = w'.outlet) :
    let plain := Run.routed (runDensity .guarded program mode ints xs) w
    let out := freshRun program home xs ints mode w'
    plain.1 = (out.1.map fun p => p.2.value) ∧ Workspace.Unison w w' plain.2 out.2 := by
  obtain ⟨-, hunison, hr⟩ := freshRun_spec program ints mode home xs h
  exact ⟨hr.eq_map fun _ _ hy => hy.1, hunison⟩

variable {program ints mode}

/-- Once the density has delivered, the sweep finds what it asks for. -/
theorem exists_gradient_of_freshRun {vars : List (Dual R)} {y : Dual R}
    (h : freshRun program home xs ints mode w = (.ok (vars, y), v)) :
    y.Live (v.tape home) ∧ (∀ x ∈ vars, x.Live (v.tape home)) ∧ ∃ partials,
      (v.tape home).gradient (w.tape home).size y vars = .ok partials ∧
        partials.length = xs.length := by
  have hself : w.outlet = w.outlet := rfl
  obtain ⟨hext, -, hr⟩ := freshRun_spec program ints mode home xs hself
  rw [h] at hext hr
  generalize (Run.routed (runDensity .guarded program mode ints xs) w).1 = plain at hr
  cases hr with
  | ok hy =>
    obtain ⟨-, hprimals, hlive⟩ := hy
    obtain ⟨hout, hvars⟩ := List.forall_mem_cons.1 hlive
    obtain ⟨partials, hok, hlength⟩ := Tape.gradient_eq_ok hext.ordered hout hvars
    exact ⟨hout, hvars, partials, hok, by rw [hlength, ← hprimals, List.length_map]⟩

/-- An evaluation that is not stopped delivers a derivative for each parameter. -/
theorem length_of_evaluation_eq_ok {space : ParameterSpace} {value : R} {partials : List R}
    (h : evaluation space program home xs ints mode w = (.ok (value, partials), v)) :
    partials.length = space.size := by
  unfold evaluation at h
  by_cases hsize : space.size ≤ xs.length
  · rw [differentiate_of_le hsize] at h
    cases hrun : freshRun program home (xs.take space.size) ints mode w with
    | mk outcome u =>
      cases outcome with
      | error s =>
        rw [gradientAt_of_error hrun] at h
        cases h
      | ok p =>
        obtain ⟨-, -, partials', hsweep, hlength⟩ := exists_gradient_of_freshRun hrun
        rw [gradientAt_of_ok hrun hsweep fun _ _ => rfl] at h
        obtain ⟨⟨-, rfl⟩, -⟩ := h
        rw [hlength, List.length_take, Nat.min_eq_left hsize]
  · rw [differentiate_of_lt (Nat.lt_of_not_le hsize)] at h
    cases h

section

variable {space params} (hsize : space.size ≤ (Container.toList params).length)

include hsize

/-- The density alone is one run on fresh variables. -/
theorem logProb_eq_freshRun (w : Workspace R) :
    (⟨space, .templated program⟩ : Model R).logProb params ints mode w =
      ((freshRun program .common ((Container.toList params).take space.size) ints mode w).1.map
          fun p => p.2.value,
        (freshRun program .common ((Container.toList params).take space.size) ints mode w).2.release
          .common (w.tape .common).size) := by
  simp only [logProb, Bind.bind, name, size, Run.needed_of_le hsize]
  exact valueAt_eq_trial ..

/-- If the density stops, its gradient does. -/
theorem logProbGrad_of_error (buffer : P R) {s : Stop}
    (h : freshRun program home ((Container.toList params).take space.size) ints mode w =
      (.error s, v)) :
    (⟨space, .templated program⟩ : Model R).logProbGrad home params ints mode buffer w =
      ((buffer, .error s), v.release home (w.tape home).size) := by
  rw [logProbGrad_templated, evaluation, differentiate_of_le hsize, gradientAt_of_error h]
  rfl

/-- If the density delivers, so does its gradient. -/
theorem logProbGrad_of_ok (buffer : P R) {vars : List (Dual R)} {y : Dual R}
    (h : freshRun program home ((Container.toList params).take space.size) ints mode w =
      (.ok (vars, y), v)) :
    y.Live (v.tape home) ∧ (∀ x ∈ vars, x.Live (v.tape home)) ∧ ∃ partials,
      (v.tape home).gradient (w.tape home).size y vars = .ok partials ∧
      partials.length = space.size ∧
      (⟨space, .templated program⟩ : Model R).logProbGrad home params ints mode buffer w =
        ((Container.overwrite buffer partials, .ok y.value),
          (reportNodes home space.name space.size (w.tape home).size v).2.release home
            (w.tape home).size) := by
  obtain ⟨hy, hvars, partials, hsweep, hlength⟩ := exists_gradient_of_freshRun h
  rw [List.length_take, Nat.min_eq_left hsize] at hlength
  refine ⟨hy, hvars, partials, hsweep, hlength, ?_⟩
  rw [logProbGrad_templated, evaluation, differentiate_of_le hsize,
    gradientAt_of_ok h hsweep fun _ _ => rfl]
  rfl

/-- The density alone ends as on plain numbers. -/
theorem logProb_eq_guarded (w : Workspace R) :
    let plain := Run.routed (runDensity .guarded program mode ints
      ((Container.toList params).take space.size)) w
    let alone := (⟨space, .templated program⟩ : Model R).logProb params ints mode w
    plain.1 = alone.1 ∧ Workspace.Unison w w plain.2 alone.2 := by
  intro plain alone
  have halone : alone = _ := logProb_eq_freshRun hsize w
  have hself : w.outlet = w.outlet := rfl
  obtain ⟨houtcome, hunison⟩ := freshRun_eq_guarded program ints mode .common
    ((Container.toList params).take space.size) hself
  rw [halone]
  exact ⟨houtcome, hunison.congr (.refl _) (.release ..)⟩

/-- The density with its gradient ends as on plain numbers. -/
theorem logProbGrad_eq_guarded (home : Home) (buffer : P R) (h : w.outlet = w'.outlet) :
    let plain := Run.routed (runDensity .guarded program mode ints
      ((Container.toList params).take space.size)) w
    let both := (⟨space, .templated program⟩ : Model R).logProbGrad home params ints mode buffer w'
    plain.1 = both.1.2 ∧ Workspace.Unison w w' plain.2 both.2 := by
  intro plain both
  obtain ⟨houtcome, hunison⟩ := freshRun_eq_guarded program ints mode home
    ((Container.toList params).take space.size) h
  cases hrun : freshRun program home ((Container.toList params).take space.size) ints mode w' with
  | mk outcome v =>
    rw [hrun] at houtcome hunison
    cases outcome with
    | error s =>
      have hboth : both = _ := logProbGrad_of_error hsize buffer hrun
      rw [hboth]
      exact ⟨houtcome, hunison.congr (.refl _) (.release ..)⟩
    | ok p =>
      obtain ⟨-, -, partials, -, -, hboth⟩ := logProbGrad_of_ok hsize buffer hrun
      rw [show both = _ from hboth]
      exact ⟨houtcome, hunison.congr (.refl _)
        ((Workspace.SoundsLike.release ..).trans (.reportNodes ..))⟩

end

/-- **Density alone and density with gradient agree.** Given enough parameters, whatever is on the
tapes of the two workspaces, both have the same outcome and write the same text. Each of them runs
the density once, on fresh variables for the first values and in the mode asked for. Once the
density has delivered, its result and the variables are live, so that the sweep succeeds. -/
theorem logProb_eq_logProbGrad (space : ParameterSpace)
    (program : Mode → List (Slot R) → List Int → Program R) (home : Home) {params : P R}
    (hsize : space.size ≤ (Container.toList params).length) (ints : List Int) (mode : Mode)
    (buffer : P R) (h : w.outlet = w'.outlet) :
    let model : Model R := ⟨space, .templated program⟩
    let density home := freshRun program home ((Container.toList params).take space.size) ints mode
    let alone := model.logProb params ints mode w
    let both := model.logProbGrad home params ints mode buffer w'
    alone.1 = both.1.2 ∧ Workspace.Unison w w' alone.2 both.2 ∧
      alone = ((density .common w).1.map fun p => p.2.value,
        (density .common w).2.release .common (w.tape .common).size) ∧
      (∀ s v, density home w' = (.error s, v) →
        both = ((buffer, .error s), v.release home (w'.tape home).size)) ∧
      ∀ vars y v, density home w' = (.ok (vars, y), v) →
        y.Live (v.tape home) ∧ (∀ x ∈ vars, x.Live (v.tape home)) ∧ ∃ partials,
          (v.tape home).gradient (w'.tape home).size y vars = .ok partials ∧
          partials.length = space.size ∧
          both = ((Container.overwrite buffer partials, .ok y.value),
            (reportNodes home space.name space.size (w'.tape home).size v).2.release home
              (w'.tape home).size) := by
  intro model density alone both
  -- both evaluations follow one run on plain numbers
  have halone : _ = alone.1 ∧ _ := logProb_eq_guarded hsize w
  have hboth : _ = both.1.2 ∧ _ := logProbGrad_eq_guarded hsize home buffer h
  exact ⟨halone.1.symm.trans hboth.1, halone.2.of_common hboth.2, logProb_eq_freshRun hsize w,
    fun s v hv => logProbGrad_of_error hsize buffer hv,
    fun vars y v hv => logProbGrad_of_ok hsize buffer hv⟩

end Templated

theorem logProb_normalScale :
    let w : Workspace Datum :=
      { common := (({} : Tape Datum).leaves [0, 1, 0]).2, outlet := .logger .journal }
    let w' : Workspace Datum := { outlet := .logger .journal }
    let params : List Datum := [0, 1]
    let model : Model Datum := ⟨NormalScale.space, .templated (NormalScale.program [1, 0] true)⟩
    let alone := model.logProb params [] .proptoJacobian w
    let both := model.logProbGrad .own params [] .proptoJacobian [] w'
    NormalScale.space.size ≤ (Container.toList params).length ∧ w.outlet = w'.outlet ∧
      alone.1 = both.1.2 ∧ Workspace.Unison w w' alone.2 both.2 := by
  intro w w' params
  have hsize : NormalScale.space.size ≤ (Container.toList params).length := by decide
  have houtlet : w.outlet = w'.outlet := rfl
  have h := logProb_eq_logProbGrad NormalScale.space (NormalScale.program [1, 0] true) .own hsize
    [] .proptoJacobian [] houtlet
  exact ⟨hsize, houtlet, h.1, h.2.1⟩

end Model

end LogDensity
