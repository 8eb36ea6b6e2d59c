import LogDensity.Proofs.Evaluation.Unison

/-!
# What a density leaves alone

A density acts on tapes, writes text and leaves debugging entries. Whatever shows none of these is
behind the scenes of an evaluation (`Workspace.Backstage`): what was heard, and how often an
interrupt was asked. A program does not change it, and neither do the scopes around it.

* `Program.keeps_run`: a program keeps what is backstage.
* `Model.polls_logProb`, `Model.polls_logProbGrad`: an evaluation asks no interrupt.
-/

namespace LogDensity

variable {R α β γ : Type}

/-- A view of the workspace is the same before and after. -/
def Run.Keeps (view : Workspace R → γ) (act : Run R α) : Prop :=
  ∀ w, view (act w).2 = view w

/-- Operations on numbers keep a view of the workspace. -/
structure Interpretation.Keeps {V : Type} (I : Interpretation R V) (view : Workspace R → γ) :
    Prop where
  unary : ∀ f x, (I.unary f x).Keeps view
  binary : ∀ f x y, (I.binary f x y).Keeps view

/-- A view of the workspace that shows no tapes, no outlet and no debugging entries. -/
structure Workspace.Backstage (view : Workspace R → γ) : Prop where
  setTape : ∀ w t home, view (w.setTape t home) = view w
  setOutlet : ∀ (w : Workspace R) o, view { w with outlet := o } = view w
  note : ∀ w text, view (w.note .debug text) = view w

namespace Workspace

theorem backstage_heard : Backstage (R := R) heard :=
  ⟨heard_setTape, fun _ _ => rfl, heard_note_debug⟩

theorem polls_setTape (w : Workspace R) (t : Tape R) (home : Home) :
    (w.setTape t home).polls = w.polls := by
  cases home <;> rfl

theorem backstage_polls : Backstage (R := R) polls :=
  ⟨polls_setTape, fun _ _ => rfl, fun _ _ => rfl⟩

theorem Backstage.release {view : Workspace R → γ} (h : Backstage view) (w : Workspace R)
    (home : Home) (mark : Nat) : view (w.release home mark) = view w :=
  (h.note ..).trans (h.setTape ..)

end Workspace

/-! ## Parts of an evaluation -/

namespace Run.Keeps

variable {view : Workspace R → γ}

theorem bind {act : Run R α} {f : α → Run R β} (h : act.Keeps view)
    (hf : ∀ a, (f a).Keeps view) : (act >>= f).Keeps view :=
  fun w => Run.bind_induction (P := fun v => view v = view w) (h w) fun a v hv => (hf a v).trans hv

section

variable (h : Workspace.Backstage view)

include h

theorem onTape (home : Home) (act : Tape R → Except Breach α × Tape R) :
    (Run.onTape home act).Keeps view :=
  fun w => h.setTape w _ home

theorem withScope (home : Home) {act : Nat → Run R α} (hact : ∀ mark, (act mark).Keeps view) :
    (Run.withScope home act).Keeps view :=
  fun w => (h.release ..).trans (hact _ w)

theorem silently {act : Run R α} (hact : act.Keeps view) : (Run.silently act).Keeps view :=
  fun w => (h.setOutlet ..).trans ((hact _).trans (h.setOutlet w _))

theorem write (text : String) : (Run.write text).Keeps view := by
  intro w
  unfold Run.write
  split
  · exact h.setOutlet w _
  · rfl

theorem reportNodes (home : Home) (name : String) (size mark : Nat) :
    (LogDensity.reportNodes home name size mark).Keeps view :=
  fun w => h.note w _

variable {density : List (Dual R) → Run R (Dual R)}

theorem valueAt (home : Home) (xs : List R) (hdensity : ∀ vars, (density vars).Keeps view) :
    (LogDensity.valueAt home xs density).Keeps view :=
  .withScope h home fun _ => .bind (.onTape h home _) fun vars => .bind (hdensity vars) fun _ _ =>
    rfl

theorem differentiate [Scalar R] (home : Home) (name : String) (size : Nat) (xs : List R)
    (hdensity : ∀ vars, (density vars).Keeps view) :
    (LogDensity.differentiate home name size xs density).Keeps view := by
  by_cases hsize : size ≤ xs.length
  · rw [differentiate_of_le hsize, gradientAt_eq]
    exact .withScope h home fun mark => .bind (.onTape h home _) fun vars =>
      .bind (hdensity vars) fun _ => .bind (.onTape h home _) fun _ =>
        .bind (.reportNodes h home name size mark) fun _ _ => rfl
  · rw [differentiate_of_lt (Nat.lt_of_not_le hsize)]
    exact fun _ => rfl

end

end Run.Keeps

/-! ## Programs -/

section Programs

variable [Scalar R] {V : Type} {view : Workspace R → γ} (h : Workspace.Backstage view)

include h

theorem Interpretation.keeps_recorded (home : Home) :
    (Interpretation.recorded (R := R) home).Keeps view :=
  ⟨fun _ _ => .onTape h home _, fun _ _ _ => .onTape h home _⟩

/-- **A program keeps what is backstage.** -/
theorem Program.keeps_run {I : Interpretation R V} (hI : I.Keeps view) (p : Program R)
    (env : Array V) : (p.run I env).Keeps view := by
  induction p generalizing V I env with
  | result x => exact fun _ => rfl
  | constant c next ih => exact ih _ hI _
  | unary f x next ih => exact .bind (hI.unary f _) fun v => ih _ hI _
  | binary f x y next ih => exact .bind (hI.binary f _ _) fun v => ih _ hI _
  | write text next ih => exact .bind (.write h text) fun taken => ih taken hI env
  | active next ih => exact .bind (fun _ => rfl) fun kept => ih kept hI env
  | nested name size values body next ihbody ihnext =>
    have hbody : (nestedRun name size values body).Keeps view :=
      .silently h (.differentiate h .common name size values fun _ =>
        ihbody (Interpretation.keeps_recorded h .common) _)
    exact .bind hbody fun a => ihnext a.1 a.2 hI env
  | fail e => exact fun _ => rfl
  | halt b => exact fun _ => rfl

end Programs

/-! ## Interrupts -/

theorem Workspace.polls_inform (w : Workspace R) (message : String) :
    (w.inform message).polls = w.polls := by
  unfold inform
  split <;> rfl

theorem Action.polls_routed {broken : α → Bool} {act : Action R α}
    (h : ∀ w, (act w).2.polls = w.polls) (w : Workspace R) :
    (Action.routed broken act w).2.polls = w.polls := by
  unfold routed
  split
  · exact h w
  · simp only [collected]
    split
    · exact h _
    · exact (Workspace.polls_inform ..).trans (h _)

theorem Report.polls_run (r : Report α) (w : Workspace R) : (r.run w).2.polls = w.polls := by
  induction r generalizing w with
  | done a => rfl
  | write text next ih =>
    unfold run Run.write
    cases w.outlet with
    | stream m => exact ih _ _
    | logger l => exact ih _ _
  | active next ih => exact ih _ _

/-- **An evaluation asks no interrupt.** -/
theorem Model.polls_logProb [Scalar R] {P : Type → Type} [Container P] (m : Model R) (params : P R)
    (ints : List Int) (mode : Mode) : (m.logProb params ints mode).Keeps Workspace.polls := by
  obtain ⟨space, density⟩ := m
  have hpolls : Workspace.Backstage (R := R) Workspace.polls := Workspace.backstage_polls
  cases density with
  | templated program =>
    have hneeded : (Run.needed space.name space.size (Container.toList params)).Keeps
        (Workspace.polls (R := R)) := by
      intro w
      unfold Run.needed
      split <;> rfl
    exact .bind hneeded fun xs => .valueAt hpolls .common xs fun vars =>
      Action.polls_routed
        (Program.keeps_run hpolls (Interpretation.keeps_recorded hpolls .common) _ _)
  | virtual entries => exact Action.polls_routed (Report.polls_run _)

/-- Neither does a gradient evaluation. -/
theorem Model.polls_logProbGrad [Scalar R] {P : Type → Type} [Container P] (m : Model R)
    (home : Home) (params : P R) (ints : List Int) (mode : Mode) (buffer : P R) (w : Workspace R) :
    (m.logProbGrad home params ints mode buffer w).2.polls = w.polls := by
  obtain ⟨space, density⟩ := m
  have hpolls : Workspace.Backstage (R := R) Workspace.polls := Workspace.backstage_polls
  cases density with
  | templated program =>
    rw [logProbGrad_templated]
    exact Run.Keeps.differentiate hpolls home _ _ _ (fun vars => Action.polls_routed
      (Program.keeps_run hpolls (Interpretation.keeps_recorded hpolls home) _ _)) w
  | virtual entries => exact Action.polls_routed (Report.polls_run _) w

end LogDensity
