import LogDensity.Evaluation.Functional
import LogDensity.Models.Rosenbrock
import LogDensity.Proofs.Evaluation.Frame
import LogDensity.Proofs.Evaluation.InPlace
import LogDensity.Proofs.Program.Steps

/-!
# Calls leave the tapes as they were

A `Call` is a call of one of the entry points that evaluate densities. Whatever the model, whatever
the parameters, and whichever way the call ends, the nodes on both tapes are the same before and
after (`Call.restored`); what a call leaves on a tape is a count of recoveries, one for every
evaluation of a templated density that was started there (`Call.started`).

* `performAll_neutral`: the same holds of any number of calls one after the other.
-/

namespace LogDensity

variable {R : Type}

/-- The workspace at the beginning of a call: the journal is empty, no interrupt was asked yet, and
text goes to the outlet. -/
def Workspace.begin (w : Workspace R) (outlet : Diagnostics) : Workspace R :=
  { w with outlet, journal := #[], polls := 0 }

namespace Model

/-- The densities of the model open no scopes of their own. -/
def ScopeFree (m : Model R) : Prop :=
  match m.density with
  | .templated program => ∀ mode xs ints, (program mode xs ints).ScopeFree
  | .virtual _ => True

/-- How many evaluations of a templated density are started when so many parameters are given: one,
unless there are too few. -/
def evaluations (m : Model R) (given : Nat) : Nat :=
  match m.density with
  | .templated _ => if m.size ≤ given then 1 else 0
  | .virtual _ => 0

section

variable {space : ParameterSpace} {program : Mode → List (Slot R) → List Int → Program R}
  {given : Nat}

theorem evaluations_of_le (h : space.size ≤ given) :
    (⟨space, .templated program⟩ : Model R).evaluations given = 1 :=
  if_pos h

theorem evaluations_of_lt (h : given < space.size) :
    (⟨space, .templated program⟩ : Model R).evaluations given = 0 :=
  if_neg (Nat.not_le.2 h)

end

theorem evaluations_eq_zero {m : Model R} {given : Nat} (h : m.kind = .virtual ∨ given < m.size) :
    m.evaluations given = 0 := by
  obtain ⟨space, density⟩ := m
  cases density with
  | templated program =>
    obtain hkind | hlt := h
    · cases hkind
    · exact evaluations_of_lt hlt
  | virtual entries => rfl

/-! ## Single evaluations -/

variable [Scalar R]

theorem logProb_restored {P : Type → Type} [Container P] {m : Model R} (hm : m.ScopeFree)
    (params : P R) (ints : List Int) (mode : Mode) (w : Workspace R) :
    w.Restored (Pi.single .common (m.evaluations (Container.toList params).length))
      (m.logProb params ints mode w).2 := by
  obtain ⟨space, density⟩ := m
  cases density with
  | templated program =>
    cases Nat.lt_or_ge (Container.toList params).length space.size with
    | inl hlt =>
      rw [evaluations_of_lt hlt, Pi.single_zero]
      simp only [logProb, Bind.bind, name, size, Run.needed_of_lt hlt]
      exact .of_tape_eq fun _ => rfl
    | inr hle =>
      rw [evaluations_of_le hle]
      simp only [logProb, Bind.bind, name, size, Run.needed_of_le hle]
      exact Run.Records.valueAt
        (fun vars => (records_runDensity hm .common mode ints vars).routed) _ w
  | virtual entries =>
    simp only [logProb, evaluations, Pi.single_zero]
    exact .of_tape_eq (Report.tape_routed _ _ w)

theorem logProbGrad_restored {P : Type → Type} [Container P] {m : Model R} (hm : m.ScopeFree)
    (home : Home) (params : P R) (ints : List Int) (mode : Mode) (buffer : P R)
    (w : Workspace R) :
    w.Restored (Pi.single home (m.evaluations (Container.toList params).length))
      (m.logProbGrad home params ints mode buffer w).2 := by
  obtain ⟨space, density⟩ := m
  cases density with
  | templated program =>
    rw [logProbGrad_templated, evaluation]
    cases Nat.lt_or_ge (Container.toList params).length space.size with
    | inl hlt =>
      rw [evaluations_of_lt hlt, Pi.single_zero, differentiate_of_lt hlt]
      exact .of_tape_eq fun _ => rfl
    | inr hle =>
      rw [evaluations_of_le hle, differentiate_of_le hle, gradientAt_eq]
      exact Run.Records.withScope (Run.Records.gradientIn
        (fun vars => (records_runDensity hm home mode ints vars).routed) _
        (.reportNodes home _ _)) w
  | virtual entries =>
    simp only [logProbGrad, evaluations, Pi.single_zero]
    exact .of_tape_eq (Report.tape_routed _ _ w)

theorem valueAndGradient_restored {m : Model R} (hm : m.ScopeFree) (params : List R)
    (ints : List Int) (mode : Mode) (w : Workspace R) :
    w.Restored (Pi.single .common (m.evaluations params.length))
      (m.valueAndGradient params ints mode w).2 := by
  have h := logProbGrad_restored hm .common params ints mode [] w
  unfold valueAndGradient
  generalize m.logProbGrad .common params ints mode [] w = out at h
  obtain ⟨⟨partials, outcome⟩, v⟩ := out
  cases outcome <;> exact h

/-- As a function, a templated density is evaluated on however many numbers there are. -/
theorem gradient_restored {m : Model R} (hm : m.ScopeFree) (xs : List R) (w : Workspace R) :
    w.Restored (Pi.single .common (m.evaluations m.size)) (m.gradient xs w).2 := by
  obtain ⟨space, density⟩ := m
  cases density with
  | templated program =>
    let f : Functional R := ⟨⟨space, .templated program⟩⟩
    have hone : f.model.evaluations f.model.size = 1 := evaluations_of_le (Nat.le_refl _)
    change w.Restored (Pi.single .common (f.model.evaluations f.model.size))
      (Run.collected (f.gradient xs) w).2
    rw [hone]
    refine Run.restored_collected ?_
    exact Run.Records.withScope (Run.Records.gradientIn
      (fun vars => records_runDensity hm .common .proptoJacobian [] vars) xs
      fun _ => .of_tape_eq fun _ _ => rfl) _
  | virtual entries =>
    let m : Model R := ⟨space, .virtual entries⟩
    change w.Restored _ (Run.collected (m.valueAndGradient xs [] .proptoJacobian) w).2
    exact Run.restored_collected (valueAndGradient_restored hm xs [] .proptoJacobian _)

/-! ## Central differences -/

section Differences

variable (m : Model R) (interrupt : Nat → Bool) (params : List R) (ints : List Int) (mode : Mode)
  (epsilon : R)

/-- How many evaluations a difference quotient starts: two, unless the interrupt or the first one of
them stops it. -/
def quotientEvaluations (x : R) (k : Nat) (w : Workspace R) : Nat :=
  if interrupt w.polls then 0
  else
    m.evaluations params.length +
      Run.after (m.logProb (params.set k (x + epsilon)) ints mode) { w with polls := w.polls + 1 }
        fun _ _ => m.evaluations params.length

/-- How many evaluations the central differences of some parameters start. -/
def differenceEvaluations : List (R × Nat) → Workspace R → Nat
  | [], _ => 0
  | (x, k) :: rest, w =>
    m.quotientEvaluations interrupt params ints mode epsilon x k w +
      Run.after (m.quotientAt interrupt params ints mode epsilon x k) w fun _ w =>
        differenceEvaluations rest w

variable {m}

theorem differenceEvaluations_eq_zero (h : m.evaluations params.length = 0) (xs : List (R × Nat))
    (w : Workspace R) :
    m.differenceEvaluations interrupt params ints mode epsilon xs w = 0 := by
  induction xs generalizing w with
  | nil => rfl
  | cons p rest ih =>
    obtain ⟨x, k⟩ := p
    rw [differenceEvaluations, Run.after_eq_zero _ _ fun _ v => ih v, Nat.add_zero,
      quotientEvaluations, h, Run.after_eq_zero _ _ fun _ _ => rfl]
    exact ite_self 0

theorem quotient_restored (hm : m.ScopeFree) (x : R) (k : Nat) (w : Workspace R) :
    w.Restored
      (Pi.single .common (m.evaluations params.length +
        Run.after (m.logProb (params.set k (x + epsilon)) ints mode) w
          fun _ _ => m.evaluations params.length))
      (m.quotient params ints mode epsilon x k w).2 := by
  have hside (y : R) (w : Workspace R) :
      w.Restored (Pi.single .common (m.evaluations params.length))
        (m.logProb (params.set k y) ints mode w).2 := by
    have hlen : (Container.toList (params.set k y)).length = params.length := List.length_set
    rw [← hlen]
    exact logProb_restored hm (params.set k y) ints mode w
  refine Run.restored_bind (hside (x + epsilon) w) fun plus v => ?_
  exact (hside (x - epsilon) v).congr (fun _ => rfl) fun _ => by rw [Run.snd_bind_pure]

theorem quotientAt_restored (hm : m.ScopeFree) (x : R) (k : Nat) (w : Workspace R) :
    w.Restored
      (Pi.single .common (m.quotientEvaluations interrupt params ints mode epsilon x k w))
      (m.quotientAt interrupt params ints mode epsilon x k w).2 := by
  cases h : interrupt w.polls with
  | true =>
    simp only [quotientAt, quotientEvaluations, Bind.bind, Run.poll, h, if_true, Pi.single_zero]
    exact .of_tape_eq fun _ => rfl
  | false =>
    simp only [quotientAt, quotientEvaluations, Bind.bind, Run.poll, h]
    exact (quotient_restored params ints mode epsilon hm x k { w with polls := w.polls + 1 }).congr
      (fun _ => rfl) fun _ => rfl

theorem differences_restored (hm : m.ScopeFree) (xs : List (R × Nat)) (w : Workspace R) :
    w.Restored
      (Pi.single .common (m.differenceEvaluations interrupt params ints mode epsilon xs w))
      (xs.mapM (fun (x, k) => m.quotientAt interrupt params ints mode epsilon x k) w).2 := by
  induction xs generalizing w with
  | nil =>
    rw [differenceEvaluations, Pi.single_zero]
    exact .of_tape_eq fun _ => rfl
  | cons p rest ih =>
    obtain ⟨x, k⟩ := p
    rw [List.mapM_cons]
    refine Run.restored_bind (quotientAt_restored interrupt params ints mode epsilon hm x k w)
      fun y v => ?_
    exact (ih v).congr (fun _ => rfl) fun _ => by rw [Run.snd_bind_pure]

theorem finiteDifference_restored (hm : m.ScopeFree) (w : Workspace R) :
    w.Restored
      (Pi.single .common (m.differenceEvaluations interrupt params ints mode epsilon
        (params.take m.size).zipIdx w))
      (m.finiteDifference interrupt params ints mode epsilon w).2 := by
  rw [finiteDifference_eq]
  exact differences_restored interrupt params ints mode epsilon hm _ w

/-- How many evaluations a gradient test starts: one for the gradient, and those of the central
differences. -/
def testEvaluations (m : Model R) (w : Workspace R) : Nat :=
  m.evaluations params.length +
    Run.after (m.valueAndGradient params ints mode) w.collecting fun _ w =>
      m.differenceEvaluations interrupt params ints mode epsilon (params.take m.size).zipIdx w

theorem testGradients_restored [Printable R] (hm : m.ScopeFree) (tolerance : R)
    (w : Workspace R) :
    w.Restored (Pi.single .common (m.testEvaluations interrupt params ints mode epsilon w))
      (m.testGradients interrupt params ints mode epsilon tolerance w).2 := by
  unfold testGradients
  refine Run.restored_bind_of_keepsTapes (Run.restored_collected ?_) fun a => ?_
  · refine Run.restored_bind (valueAndGradient_restored hm params ints mode _) fun _ v => ?_
    exact (finiteDifference_restored interrupt params ints mode epsilon hm v).congr (fun _ => rfl)
      fun _ => by rw [Run.snd_bind_pure]
  · -- the table and the warning go to the logger and to the journal
    obtain ⟨value, partials, differences⟩ := a
    refine .bind (Run.keepsTapes_inform _) fun _ => .bind (Run.keepsTapes_inform _) fun _ =>
      .bind (Run.keepsTapes_inform _) fun _ =>
        .bind (.forM fun _ => Run.keepsTapes_inform _) fun _ => ?_
    extract_lets failed
    split
    · exact fun _ _ => rfl
    · exact fun _ _ => rfl

end Differences

end Model

/-! ## Calls -/

/-- A call of an entry point that evaluates densities, up to the outlet, which is chosen when the
call is performed. A gradient on a tape of the caller's own is `logProbGrad` at the home `own`; all
other calls are at home on the common tape. -/
inductive Call (R : Type) : Type 1
  | logProb {P : Type → Type} [Container P] (m : Model R) (params : P R) (ints : List Int)
    (mode : Mode)
  | logProbPropto {P : Type → Type} [Container P] (m : Model R) (params : P R) (ints : List Int)
    (jacobian : Bool)
  | logProbGrad {P : Type → Type} [Container P] (m : Model R) (home : Home) (params : P R)
    (ints : List Int) (mode : Mode) (buffer : P R)
  | gradient (m : Model R) (xs : List R)
  | finiteDifference (m : Model R) (interrupt : Nat → Bool) (params : List R) (ints : List Int)
    (mode : Mode) (epsilon : R)
  | testGradients (m : Model R) (interrupt : Nat → Bool) (params : List R) (ints : List Int)
    (mode : Mode) (epsilon tolerance : R)

namespace Call

/-- The model that is evaluated. -/
def model : Call R → Model R
  | logProb m .. | logProbPropto m .. | logProbGrad m .. | gradient m .. | finiteDifference m ..
  | testGradients m .. => m

/-- The tape that templated densities are evaluated on. -/
def home : Call R → Home
  | logProbGrad _ home .. => home
  | _ => .common

/-- The number of parameters; for a call as a function it does not matter. -/
def given : Call R → Nat
  | logProb _ params .. | logProbPropto _ params .. | logProbGrad _ _ params .. =>
    (Container.toList params).length
  | gradient m _ => m.size
  | finiteDifference _ _ params .. | testGradients _ _ params .. => params.length

variable [Scalar R]

/-- How many evaluations of a templated density the call starts. -/
def started : Call R → Workspace R → Nat
  | finiteDifference m interrupt params ints mode epsilon, w =>
    m.differenceEvaluations interrupt params ints mode epsilon (params.take m.size).zipIdx w
  | testGradients m interrupt params ints mode epsilon _, w =>
    m.testEvaluations interrupt params ints mode epsilon w
  | c, _ => c.model.evaluations c.given

/-- No evaluation is started for a virtual model, or with too few parameters. -/
theorem started_eq_zero {c : Call R} (h : c.model.kind = .virtual ∨ c.given < c.model.size)
    (w : Workspace R) : c.started w = 0 := by
  have hzero := Model.evaluations_eq_zero h
  cases c with
  | logProb m params ints mode => exact hzero
  | logProbPropto m params ints jacobian => exact hzero
  | logProbGrad m home params ints mode buffer => exact hzero
  | gradient m xs => exact hzero
  | finiteDifference m interrupt params ints mode epsilon =>
    exact Model.differenceEvaluations_eq_zero interrupt params ints mode epsilon hzero _ w
  | testGradients m interrupt params ints mode epsilon tolerance =>
    have hparams : m.evaluations params.length = 0 := hzero
    rw [started, Model.testEvaluations, hparams, Run.after_eq_zero _ _ fun _ v =>
      Model.differenceEvaluations_eq_zero interrupt params ints mode epsilon hparams _ v]

variable [Printable R]

/-- The workspace after the call. -/
def act : Call R → Workspace R → Workspace R
  | logProb m params ints mode, w => (m.logProb params ints mode w).2
  | logProbPropto m params ints jacobian, w => (m.logProbPropto params ints jacobian w).2
  | logProbGrad m home params ints mode buffer, w =>
    (m.logProbGrad home params ints mode buffer w).2
  | gradient m xs, w => (m.gradient xs w).2
  | finiteDifference m interrupt params ints mode epsilon, w =>
    (m.finiteDifference interrupt params ints mode epsilon w).2
  | testGradients m interrupt params ints mode epsilon tolerance, w =>
    (m.testGradients interrupt params ints mode epsilon tolerance w).2

/-- **A call restores the tapes**, and counts one recovery for every evaluation started. -/
theorem restored (c : Call R) (hc : c.model.ScopeFree) (w : Workspace R) :
    w.Restored (Pi.single c.home (c.started w)) (c.act w) := by
  cases c with
  | logProb m params ints mode => exact Model.logProb_restored hc params ints mode w
  | logProbPropto m params ints jacobian => exact Model.logProb_restored hc params ints _ w
  | logProbGrad m home params ints mode buffer =>
    exact Model.logProbGrad_restored hc home params ints mode buffer w
  | gradient m xs => exact Model.gradient_restored hc xs w
  | finiteDifference m interrupt params ints mode epsilon =>
    exact Model.finiteDifference_restored interrupt params ints mode epsilon hc w
  | testGradients m interrupt params ints mode epsilon tolerance =>
    exact Model.testGradients_restored interrupt params ints mode epsilon hc tolerance w

/-- The workspace after a call that sends text to an outlet. -/
def perform (c : Call R) (outlet : Diagnostics) (w : Workspace R) : Workspace R :=
  c.act (w.begin outlet)

theorem perform_restored (c : Call R) (hc : c.model.ScopeFree) (outlet : Diagnostics)
    (w : Workspace R) :
    w.Restored (Pi.single c.home (c.started (w.begin outlet))) (c.perform outlet w) :=
  (c.restored hc (w.begin outlet)).congr (fun _ => rfl) fun _ => rfl

end Call

/-- The workspace after calls one after the other, each with an outlet. -/
def performAll [Scalar R] [Printable R] : List (Diagnostics × Call R) → Workspace R → Workspace R
  | [], w => w
  | (outlet, c) :: rest, w => performAll rest (c.perform outlet w)

section

variable [Scalar R] [Printable R]

theorem nodes_performAll {calls : List (Diagnostics × Call R)}
    (hcalls : ∀ p ∈ calls, p.2.model.ScopeFree) (w : Workspace R) (home : Home) :
    ((performAll calls w).tape home).nodes = (w.tape home).nodes := by
  induction calls generalizing w with
  | nil => rfl
  | cons p rest ih =>
    obtain ⟨outlet, c⟩ := p
    have hc : c.model.ScopeFree := hcalls (outlet, c) List.mem_cons_self
    exact (ih (fun q hq => hcalls q (List.mem_cons_of_mem _ hq)) _).trans
      ((c.perform_restored hc outlet w).nodes home)

/-- **Calls leave the tapes as they were.** After any calls, a further call leaves on both tapes the
nodes that were there, before it and at first; so what was live is live, and what could be
differentiated has the same derivatives. The recoveries of the tape at home grow by the number of
evaluations of a templated density that the call starts, which is zero for virtual models and if
there are too few parameters. The other tape is not touched, and neither is touched if no evaluation
was started. -/
theorem performAll_neutral {calls : List (Diagnostics × Call R)}
    (hcalls : ∀ p ∈ calls, p.2.model.ScopeFree) {c : Call R} (hc : c.model.ScopeFree)
    (outlet : Diagnostics) (w : Workspace R) :
    let before := performAll calls w
    let after := c.perform outlet before
    let started := c.started (before.begin outlet)
    (∀ home, (before.tape home).nodes = (w.tape home).nodes) ∧
      (∀ home, (after.tape home).nodes = (before.tape home).nodes) ∧
      (∀ home h, (after.tape home).Live h ↔ (before.tape home).Live h) ∧
      (∀ home mark out wrt, (after.tape home).gradient mark out wrt =
        (before.tape home).gradient mark out wrt) ∧
      (after.tape c.home).recoveries = (before.tape c.home).recoveries + started ∧
      (∀ home, home ≠ c.home → after.tape home = before.tape home) ∧
      (started = 0 → ∀ home, after.tape home = before.tape home) ∧
      (c.model.kind = .virtual ∨ c.given < c.model.size → started = 0) := by
  intro before after started
  have h : before.Restored (Pi.single c.home started) after := c.perform_restored hc outlet before
  refine ⟨nodes_performAll hcalls w, h.nodes, fun home => Tape.live_congr (h.nodes home),
    fun home => Tape.gradient_congr (h.nodes home), ?_, fun home hne => ?_, fun hzero home => ?_,
    fun hnone => ?_⟩
  · rw [h.recoveries, Pi.single_eq_same]
  · exact h.untouched home (Pi.single_eq_of_ne hne _)
  · exact h.untouched home (by rw [hzero, Pi.single_zero]; rfl)
  · exact Call.started_eq_zero hnone _

end

theorem performAll_normalScale :
    let model := NormalScale.model [1, 0] true
    let calls : List (Diagnostics × Call Datum) :=
      [(.stream .none, .testGradients model (fun k => k == 1) [0, 1] [] .plain 1 1),
        (.logger .journal, .logProb Rosenbrock.model [0, 1] [] .plain)]
    let c : Call Datum := .logProbGrad model .own [0, 1] [] .plain []
    let w : Workspace Datum := { own := (({} : Tape Datum).leaves [0, 1, 0]).2 }
    let before := performAll calls w
    let after := c.perform (.stream .none) before
    (∀ p ∈ calls, p.2.model.ScopeFree) ∧ c.model.ScopeFree ∧
      (after.tape .own).nodes = (before.tape .own).nodes ∧
      (after.tape .own).recoveries = (before.tape .own).recoveries + 1 ∧
      after.tape .common = before.tape .common := by
  intro model calls c w before after
  have hmodel : model.ScopeFree := NormalScale.scopeFree_program [1, 0] true
  have hcalls : ∀ p ∈ calls, p.2.model.ScopeFree := by
    intro p hp
    obtain rfl | hp := List.mem_cons.1 hp
    · exact hmodel
    · obtain rfl := List.mem_singleton.1 hp
      trivial
  obtain ⟨-, hnodes, -, -, hrecoveries, hother, -⟩ :=
    performAll_neutral hcalls (c := c) hmodel (.stream .none) w
  exact ⟨hcalls, hmodel, hnodes .own, hrecoveries, hother .common (by decide)⟩

end LogDensity
