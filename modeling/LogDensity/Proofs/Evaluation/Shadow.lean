import LogDensity.Proofs.Evaluation.Extension
import LogDensity.Proofs.Evaluation.Unison
import LogDensity.Proofs.Program.Course
import LogDensity.Proofs.Tape.Sweeping

/-!
# Primal values as the shadow of recorded numbers

Run a density on dual numbers, and beside it on their values alone. As long as the numbers are live,
so are the results of operations, and the values follow the dual numbers like a shadow
(`shadowing`): branches, texts, errors and breaches are the same, evaluations of other densities
included. An integer power that cannot be differentiated is a breach on dual numbers; the numbers
that follow them refuse it as well (`Interpretation.guarded`).

* `trial_spec`: a density on fresh variables ends as it does on their values, it extends the tape,
  and its result and the variables are live.
-/

namespace LogDensity

variable {R : Type}

/-! ## Live results -/

/-- An operation on live numbers succeeds, and its result is live. -/
theorem Dual.exists_ofOperation {t : Tape R} {operands : List (Dual R × R)}
    (hl : ∀ o ∈ operands, o.1.Live t) (x : R) :
    ∃ y, (ofOperation t x operands).1 = .ok y ∧ y.value = x ∧
      y.Live (ofOperation t x operands).2 := by
  by_cases hne : tracked operands = []
  · rw [ofOperation_of_constant hne]
    exact ⟨constant x, rfl, rfl, fun _ h => nomatch h⟩
  · rw [ofOperation_of_live hne hl]
    refine ⟨_, rfl, rfl, fun h hh => ?_⟩
    obtain rfl := Option.mem_some_iff.1 hh
    simp [Tape.Live, Tape.size, Tape.nodeOf]

theorem Tape.map_value_leaves (t : Tape R) (xs : List R) :
    (t.leaves xs).1.map Dual.value = xs := by
  induction xs generalizing t with
  | nil => rfl
  | cons x xs ih =>
    simp only [leaves, leaf_eq, List.map_cons, ih]

/-- Fresh variables are live. -/
theorem Tape.live_leaves (t : Tape R) (xs : List R) :
    ∀ x ∈ (t.leaves xs).1, x.Live (t.leaves xs).2 := by
  induction xs generalizing t with
  | nil => exact fun _ h => nomatch h
  | cons x xs ih =>
    have hleaf : (Dual.leaf t x).1.Live (Dual.leaf t x).2 := by
      rw [leaf_eq]
      intro h hh
      obtain rfl := Option.mem_some_iff.1 hh
      simp [Live, size]
    exact List.forall_mem_cons.2 ⟨(Extends.leaves _ xs).dual_live hleaf, ih _⟩

/-! ## The simulation -/

/-- Tapes are ordered by what was added to them. -/
instance : Preorder (Tape R) where
  le := Tape.Extends
  le_refl _ := .of_nodes_eq rfl
  le_trans _ _ _ := .trans

/-- Numbers are scalars, and an integer power without a derivative is refused. -/
def Interpretation.guarded [Scalar R] : Interpretation R R where
  primal x := x
  constant x := x
  unary f x := if f = .powi Int32.minValue then Run.halt .exponentOverflow else pure (f.value x)
  binary f x y := pure (f.value x y)

section Shadowing

variable {home : Home} {u u' w w' : Workspace R} {t : Tape R}

/-- A value on one side and a recorded number on the other go on together. -/
theorem agree_onTape {x : R} {act : Tape R → Except Breach (Dual R) × Tape R}
    (hs : w'.tape home = t ∧ Workspace.Unison u u' w w') (hext : t.Extends (act t).2)
    (hact : ∃ y, (act t).1 = .ok y ∧ y.value = x ∧ y.Live (act t).2) :
    ∃ t', t ≤ t' ∧ ((Run.onTape home act w').2.tape home = t' ∧
      Workspace.Unison u u' w (Run.onTape home act w').2) ∧
      Outcome.Rel (fun x y => y.value = x ∧ y.Live t') (.ok x) (Run.onTape home act w').1 := by
  obtain ⟨rfl, hunison⟩ := hs
  obtain ⟨y, hok, hvalue, hlive⟩ := hact
  simp only [Run.onTape, hok]
  exact ⟨_, hext, ⟨Workspace.tape_setTape .., hunison.congr (.refl w) (.setTape w' _ home)⟩,
    .ok ⟨hvalue, hlive⟩⟩

variable [Scalar R]

/-- Values follow the dual numbers that are live. -/
def shadowing (home : Home) (u u' : Workspace R) :
    Simulation (Tape R) (Interpretation.guarded (R := R)) (Interpretation.recorded home) where
  states t w w' := w'.tape home = t ∧ Workspace.Unison u u' w w'
  values t x y := y.value = x ∧ y.Live t
  mono h hxy := ⟨hxy.1, h.dual_live hxy.2⟩
  primal h := h.1.symm
  constant _ c := ⟨rfl, fun _ h => nomatch h⟩
  outlet h := h.2.outlet
  setOutlet o h := ⟨h.1, h.2.setOutlet o⟩
  log es h := ⟨h.1, h.2.log es⟩
  unary := by
    rintro t w w' _ y f hs ⟨rfl, hy⟩
    have hext : t.Extends (Dual.unary t f y).2 := .unary t f y
    by_cases hf : f = .powi Int32.minValue
    · obtain ⟨rfl, hunison⟩ := hs
      simp only [Interpretation.guarded, Interpretation.recorded, if_pos hf, Run.onTape, Dual.unary]
      exact ⟨_, le_rfl, ⟨Workspace.tape_setTape .., hunison.congr (.refl w) (.setTape w' _ home)⟩,
        .error _⟩
    · simp only [Interpretation.guarded, Interpretation.recorded, if_neg hf]
      refine agree_onTape hs hext ?_
      rw [Dual.unary, if_neg hf]
      exact Dual.exists_ofOperation (by simpa using hy) _
  binary := by
    rintro t w w' _ y _ y' f hs ⟨rfl, hy⟩ ⟨rfl, hy'⟩
    have hext : t.Extends (Dual.binary t f y y').2 := .binary t f y y'
    refine agree_onTape hs hext ?_
    exact Dual.exists_ofOperation (by simp [hy, hy']) _

/-- Evaluations of other densities are recorded on both sides. -/
theorem nests_shadowing (home : Home) (u u' : Workspace R) : (shadowing home u u').Nests := by
  rintro name size values body - t w w' ⟨rfl, hunison⟩
  have hnests := nests_alike w w' home
  have hbody : (alike w w' home).Runs body := Simulation.runs body (.inr hnests)
  have hstart : (alike w w' home).states () w w' := Workspace.Alike.start hunison.outlet
  obtain ⟨_, -, halike, hr⟩ := hnests name size values body hbody hstart
  have hnodes := Program.keepsNodes_nestedRun name size values body w' home
  exact ⟨_, .of_nodes_eq hnodes, ⟨rfl, hunison.trans halike.unison⟩, hr⟩

/-- Densities on live numbers and on their values go on together. -/
theorem agree_shadow (program : Mode → List (Slot R) → List Int → Program R) (mode : Mode)
    (ints : List Int) {xs : List R} {vars : List (Dual R)}
    (hs : (shadowing home u u').states t w w')
    (hvars : List.Forall₂ ((shadowing home u u').values t) xs vars) :
    (shadowing home u u').Agree (shadowing home u u').values t
      (runDensity .guarded program mode ints xs w)
      (runDensity (.recorded home) program mode ints vars w') :=
  Simulation.runs_density (.inr (nests_shadowing home u u')) hs hvars

end Shadowing

/-! ## Densities on fresh variables -/

section Trials

variable [Scalar R] {home : Home} {w w' : Workspace R} {xs : List R}

/-- A density on fresh variables, delivered with these variables. -/
def trial (home : Home) (xs : List R) (density : List (Dual R) → Run R (Dual R)) :
    Run R (List (Dual R) × Dual R) := do
  let vars ← Run.leaves home xs
  let y ← density vars
  pure (vars, y)

/-- **What a density on fresh variables does**, beside a run on their values that goes on together
with it: the tape is extended, the same is heard, and if there is a result, it has the same value,
and the variables and the result are live. -/
theorem trial_spec {plain : Run R R} {density : List (Dual R) → Run R (Dual R)}
    (h : w.outlet = w'.outlet)
    (hdensity : ∀ {t v v' vars}, (shadowing home w w').states t v v' →
      List.Forall₂ ((shadowing home w w').values t) xs vars →
      (shadowing home w w').Agree (shadowing home w w').values t (plain v) (density vars v')) :
    let out := trial home xs density w'
    (w'.tape home).Extends (out.2.tape home) ∧ Workspace.Unison w w' (plain w).2 out.2 ∧
      Outcome.Rel (fun x p => p.2.value = x ∧ p.1.map Dual.value = xs ∧
        ∀ y ∈ p.2 :: p.1, y.Live (out.2.tape home)) (plain w).1 out.1 := by
  intro out
  let vars := ((w'.tape home).leaves xs).1
  let t := ((w'.tape home).leaves xs).2
  have hs : (shadowing home w w').states t w (w'.setTape t home) :=
    ⟨Workspace.tape_setTape .., (Workspace.Unison.start h).congr (.refl w) (.setTape w' t home)⟩
  have hprimals : vars.map Dual.value = xs := Tape.map_value_leaves _ xs
  have hlive : ∀ x ∈ vars, x.Live t := Tape.live_leaves _ xs
  have hvars : List.Forall₂ ((shadowing home w w').values t) xs vars := by
    rw [← hprimals, List.forall₂_map_left_iff, List.forall₂_same]
    exact fun x hx => ⟨rfl, hlive x hx⟩
  obtain ⟨t', hle, ⟨htape, hunison⟩, hr⟩ := hdensity hs hvars
  have hout : out = (density vars >>= fun y => pure (vars, y)) (w'.setTape t home) := rfl
  simp only [Bind.bind] at hout
  generalize density vars (w'.setTape t home) = result at *
  obtain ⟨y, v⟩ := result
  obtain rfl : v.tape home = t' := htape
  have hext : (w'.tape home).Extends (v.tape home) := (Tape.Extends.leaves _ xs).trans hle
  generalize plain w = shadow at *
  obtain ⟨x, v'⟩ := shadow
  cases hr with
  | ok hy =>
    rw [hout]
    exact ⟨hext, hunison, .ok ⟨hy.1, hprimals,
      List.forall_mem_cons.2 ⟨hy.2, fun x hx => hle.dual_live (hlive x hx)⟩⟩⟩
  | error s =>
    rw [hout]
    exact ⟨hext, hunison, .error s⟩

end Trials

end LogDensity
