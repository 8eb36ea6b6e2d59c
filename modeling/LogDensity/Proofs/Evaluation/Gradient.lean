import LogDensity.Proofs.Program.Forward

/-!
# The gradient entry point

For a templated model `logProbGrad` differentiates the density in a scope, and delivers the value
and, in the buffer, the derivatives (`Model.logProbGrad_templated`). Over a field these are what the
density delivers under `forward` (`Model.logProbGrad_eq_forward`).
-/

namespace LogDensity

namespace Run

variable {R : Type}

theorem needed_of_le {name : String} {size : Nat} {xs : List R} (h : size ≤ xs.length)
    (w : Workspace R) : Run.needed name size xs w = (.ok (xs.take size), w) := by
  unfold Run.needed
  rw [if_neg (Nat.not_lt.2 h)]
  rfl

theorem needed_of_lt {name : String} {size : Nat} {xs : List R} (h : xs.length < size)
    (w : Workspace R) :
    Run.needed name size xs w = (.error (.breach (.tooFewParameters name size xs.length)), w) := by
  unfold Run.needed
  rw [if_pos h]
  rfl

/-- A run that delivers a value from every workspace delivers it wherever its text goes. -/
theorem routed_eq_ok {α : Type} {act : Run R α} {a : α} (h : ∀ w, (act w).1 = .ok a)
    (w : Workspace R) : (Run.routed act w).1 = .ok a := by
  unfold Run.routed Action.routed
  cases w.outlet with
  | stream m => exact h w
  | logger l => exact h _

end Run

section Templated

variable {R : Type} [Scalar R]

/-- What is done inside the scope of a gradient. -/
def gradientIn (home : Home) (xs : List R) (density : List (Dual R) → Run R (Dual R))
    (report : Nat → Run R Unit) (mark : Nat) : Run R (R × List R) := do
  let vars ← Run.leaves home xs
  let out ← density vars
  let partials ← Run.gradient home mark out vars
  report mark
  pure (out.value, partials)

theorem gradientAt_eq (home : Home) (xs : List R) (density : List (Dual R) → Run R (Dual R))
    (report : Nat → Run R Unit) :
    gradientAt home xs density report = Run.withScope home (gradientIn home xs density report) :=
  rfl

/-- The report on the nodes that were recorded from a mark on. -/
def reportNodes (home : Home) (name : String) (size mark : Nat) : Run R Unit := do
  let recorded ← Run.asks fun w => (w.tape home).size - mark
  Run.note .debug s!"{name}: gradient over {size} parameters recorded {recorded} arena nodes"

theorem differentiate_of_le {home : Home} {name : String} {size : Nat} {xs : List R}
    (h : size ≤ xs.length) (density : List (Dual R) → Run R (Dual R)) :
    differentiate home name size xs density =
      gradientAt home (xs.take size) density (reportNodes home name size) := by
  funext w
  simp only [differentiate, Bind.bind, Run.needed_of_le h]
  rfl

theorem differentiate_of_lt {home : Home} {name : String} {size : Nat} {xs : List R}
    (h : xs.length < size) (density : List (Dual R) → Run R (Dual R)) :
    differentiate home name size xs density =
      Run.halt (.tooFewParameters name size xs.length) := by
  funext w
  simp only [differentiate, Bind.bind, Run.needed_of_lt h]
  rfl

/-- What the caller of a gradient evaluation gets: the derivatives in the buffer, if there are
any. -/
def deliver {P : Type → Type} [Container P] (buffer : P R) :
    Outcome (R × List R) → P R × Outcome R
  | .ok (value, partials) => (Container.overwrite buffer partials, .ok value)
  | .error s => (buffer, .error s)

namespace Model

/-- The evaluation of a templated density with its gradient. -/
def evaluation (space : ParameterSpace) (program : Mode → List (Slot R) → List Int → Program R)
    (home : Home) (xs : List R) (ints : List Int) (mode : Mode) : Run R (R × List R) :=
  differentiate home space.name space.size xs fun vars =>
    Run.routed (runDensity (.recorded home) program mode ints vars)

theorem logProbGrad_templated {P : Type → Type} [Container P] (space : ParameterSpace)
    (program : Mode → List (Slot R) → List Int → Program R) (home : Home) (params : P R)
    (ints : List Int) (mode : Mode) (buffer : P R) (w : Workspace R) :
    (⟨space, .templated program⟩ : Model R).logProbGrad home params ints mode buffer w =
      (deliver buffer (evaluation space program home (Container.toList params) ints mode w).1,
        (evaluation space program home (Container.toList params) ints mode w).2) := by
  unfold evaluation
  simp only [logProbGrad, name, size]
  generalize differentiate home _ _ _ _ w = out
  obtain ⟨a, v⟩ := out
  cases a <;> rfl

end Model

end Templated

/-- **A gradient evaluation delivers the forward derivatives of the density.** -/
theorem Model.logProbGrad_eq_forward {K : Type} [Field K] [DecidableEq K] [Elementary K]
    {P : Type → Type} [Container P] (space : ParameterSpace)
    {program : Mode → List (Slot K) → List Int → Program K}
    (hfree : ∀ mode xs ints, (program mode xs ints).ScopeFree) (home : Home) {params : P K}
    (hsize : space.size ≤ (Container.toList params).length) (ints : List Int) (mode : Mode)
    (buffer : P K) (w : Workspace K) :
    ((⟨space, .templated program⟩ : Model K).logProbGrad home params ints mode buffer w).1 =
      deliver buffer ((Run.routed (runDensity .forward program mode ints
        (Tangent.params ((Container.toList params).take space.size))) w).1.map fun y =>
          (y.value, (List.range space.size).map y.slopes)) := by
  let xs := (Container.toList params).take space.size
  have hdensity (mark : Nat) {u w w' vars params'}
      (hs : (tracing home mark xs.length).states u w w')
      (hv : List.Forall₂ (Trail.Traces mark u) vars params') :
      (tracing home mark xs.length).Agree (Trail.Traces mark) u
        (Run.routed (runDensity (.recorded home) program mode ints vars) w)
        (Run.routed (runDensity .forward program mode ints params') w') :=
    Simulation.Agree.routed (fun hs =>
      Simulation.runs_density (.inl fun xs => hfree mode xs ints) hs hv) hs
  have hreport (mark : Nat) (w : Workspace K) :
      (reportNodes home space.name space.size mark w).1 = .ok () :=
    rfl
  have hforward := gradientAt_eq_forward home xs hdensity hreport (w := w) rfl
  rw [List.length_take, Nat.min_eq_left hsize] at hforward
  rw [logProbGrad_templated, evaluation, differentiate_of_le hsize, hforward]

end LogDensity
