import LogDensity.Proofs.Evaluation.Independence
import LogDensity.Proofs.Program.Writing

/-!
# What a density can tell apart

A density learns of its outlet only what the outlet answers: whether a text was taken, and whether
there is a stream. A heedless density goes on in one way whatever these answers are. Of the tapes it
learns nothing beyond the nodes it recorded there itself. So workspaces with the same tapes, and
with the same answers unless the density is heedless, cannot be told apart (`Workspace.Akin`), and
they are left like this (`Action.Respects`).

* `Program.respects_run`: a program ends alike in both workspaces.
* `Program.written_congr`: it writes the same texts.
-/

namespace LogDensity

variable {R α β γ : Type}

/-! ## Heedless densities -/

/-- The program pays no heed to what its outlet answers. -/
def Program.Heedless : Program R → Prop
  | result _ => True
  | constant _ next => ∀ x, (next x).Heedless
  | unary _ _ next => ∀ x, (next x).Heedless
  | binary _ _ _ next => ∀ x, (next x).Heedless
  | write _ next => next true = next false ∧ ∀ b, (next b).Heedless
  | active next => next true = next false ∧ ∀ b, (next b).Heedless
  | nested _ _ _ _ next => ∀ y g, (next y g).Heedless
  | fail _ => True
  | halt _ => True

/-- The report pays no heed to what its outlet answers. -/
def Report.Heedless : Report α → Prop
  | done _ => True
  | write _ next => next true = next false ∧ ∀ b, (next b).Heedless
  | active next => next true = next false ∧ ∀ b, (next b).Heedless

/-- Answers that are the same or do not matter lead to the same. -/
theorem next_congr {attentive : Prop} {next : Bool → α} {b b' : Bool}
    (hnext : attentive ∨ next true = next false) (hb : attentive → b = b') : next b = next b' := by
  obtain h | h := hnext
  · rw [hb h]
  · cases b <;> cases b' <;> first | rfl | exact h | exact h.symm

/-- **Reports on streams that give the same answers.** -/
theorem Report.on_congr {r : Report α} {m m' : Messages} {attentive : Prop}
    (hr : attentive ∨ r.Heedless) (h : attentive → m.answers = m'.answers) :
    (r.on m).1 = (r.on m').1 ∧ r.written m = r.written m' := by
  induction r generalizing m m' with
  | done a => exact ⟨rfl, rfl⟩
  | write text next ih =>
    have hnext : next (m.write text).1 = next (m'.write text).1 :=
      next_congr (hr.imp_right And.left) fun ha => by rw [m.fst_write, m'.fst_write, h ha]
    have hafter : attentive → (m.write text).2.answers = (m'.write text).2.answers :=
      fun ha => by rw [m.answers_write, m'.answers_write, h ha]
    obtain ⟨hon, hwritten⟩ := ih (m'.write text).1 (hr.imp_right fun hr => hr.2 _) hafter
    simp only [on, written, hnext]
    exact ⟨hon, congrArg _ hwritten⟩
  | active next ih =>
    have hnext : next m.isActive = next m'.isActive :=
      next_congr (hr.imp_right And.left) fun ha => by rw [m.isActive_eq, m'.isActive_eq, h ha]
    simp only [on, written, hnext]
    exact ih m'.isActive (hr.imp_right fun hr => hr.2 _) h

/-! ## Workspaces that are told apart by some tapes and by answers -/

/-- The tapes at some homes are the same, and for an attentive density the answers of the outlets
are. -/
structure Workspace.Akin (homes : Home → Prop) (attentive : Prop) (w w' : Workspace R) : Prop where
  tapes : ∀ home, homes home → w.tape home = w'.tape home
  answers : attentive → w.outlet.answers = w'.outlet.answers

namespace Workspace.Akin

variable {homes : Home → Prop} {attentive : Prop} {w w' : Workspace R}

theorem setTape (h : w.Akin homes attentive w') (t : Tape R) (home : Home) :
    (w.setTape t home).Akin homes attentive (w'.setTape t home) where
  tapes other hother := tape_setTape_congr (h.tapes other hother) t home
  answers ha := by
    rw [outlet_setTape, outlet_setTape, h.answers ha]

theorem after (h : w.Akin homes attentive w') (texts : List String) :
    ({ w with outlet := w.outlet.after texts } : Workspace R).Akin homes attentive
      { w' with outlet := w'.outlet.after texts } where
  tapes := h.tapes
  answers ha := by
    rw [Diagnostics.answers_after, Diagnostics.answers_after, h.answers ha]

/-- What follows a text that was taken or not, or a look at the outlet. -/
theorem next_eq (h : w.Akin homes attentive w') {next : Bool → β}
    (hnext : attentive ∨ next true = next false) :
    next w.outlet.answers.1 = next w'.outlet.answers.1 ∧
      next w.outlet.answers.2 = next w'.outlet.answers.2 :=
  ⟨next_congr hnext fun ha => by rw [h.answers ha], next_congr hnext fun ha => by rw [h.answers ha]⟩

end Workspace.Akin

/-- The action ends alike in workspaces that are related, and leaves them related. -/
def Action.Respects (r : Workspace R → Workspace R → Prop) (act : Action R α) : Prop :=
  ∀ ⦃w w'⦄, r w w' → (act w).1 = (act w').1 ∧ r (act w).2 (act w').2

namespace Action.Respects

variable {r : Workspace R → Workspace R → Prop}

theorem bind {act : Run R α} {f : α → Run R β} (h : Action.Respects r act)
    (hf : ∀ a, Action.Respects r (f a)) : Action.Respects r (act >>= f : Run R β) := by
  intro w w' hw
  obtain ⟨hout, hr⟩ := h hw
  simp only [Bind.bind]
  generalize act w = out at *
  generalize act w' = out' at *
  obtain ⟨a, v⟩ := out
  obtain ⟨a', v'⟩ := out'
  obtain rfl : a = a' := hout
  cases a with
  | ok a => exact hf a hr
  | error s => exact ⟨rfl, hr⟩

theorem mapM {γ : Type} {f : γ → Run R α} (hf : ∀ x, Action.Respects r (f x)) (xs : List γ) :
    Action.Respects r (xs.mapM f : Run R (List α)) := by
  induction xs with
  | nil => exact fun _ _ hw => ⟨rfl, hw⟩
  | cons x xs ih =>
    rw [List.mapM_cons]
    exact bind (hf x) fun y => bind ih fun ys _ _ hw => ⟨rfl, hw⟩

/-- After an action that respects a relation, lists that do so from there on are equal. -/
theorem onward_eq {act : Run R α} {left : α → Workspace R → List β}
    (h : Action.Respects r act) (hleft : ∀ a v v', r v v' → left a v = left a v')
    {w w' : Workspace R} (hw : r w w') : act.onward left w = act.onward left w' := by
  obtain ⟨hout, hr⟩ := h hw
  unfold Run.onward
  generalize act w = out at *
  generalize act w' = out' at *
  obtain ⟨a, v⟩ := out
  obtain ⟨a', v'⟩ := out'
  obtain rfl : a = a' := hout
  cases a with
  | ok a => exact hleft a v v' hr
  | error s => rfl

variable {homes : Home → Prop} {attentive : Prop}

theorem onTape {home : Home} (hhome : homes home) (act : Tape R → Except Breach α × Tape R) :
    Action.Respects (Workspace.Akin homes attentive) (Run.onTape home act) := by
  intro w w' hw
  simp only [Run.onTape, hw.tapes home hhome]
  exact ⟨trivial, hw.setTape _ home⟩

end Action.Respects

/-! ## Programs -/

section Programs

variable [Scalar R] {V : Type} {homes : Home → Prop} {attentive : Prop}

/-- The operations on numbers respect a relation of workspaces. -/
structure Interpretation.Respects (I : Interpretation R V)
    (r : Workspace R → Workspace R → Prop) : Prop where
  unary : ∀ f x, Action.Respects r (I.unary f x)
  binary : ∀ f x y, Action.Respects r (I.binary f x y)

theorem Interpretation.respects_recorded {home : Home} (hhome : homes home) :
    (Interpretation.recorded (R := R) home).Respects (Workspace.Akin homes attentive) :=
  ⟨fun _ _ => .onTape hhome _, fun _ _ _ => .onTape hhome _⟩

namespace Program

/-- The evaluation of another density learns nothing of the outlet, and of the tapes only what it
recorded. -/
theorem respects_nestedRun (name : String) (size : Nat) (values : List R) (body : Program R) :
    Action.Respects (Workspace.Akin homes attentive) (nestedRun name size values body) := by
  intro w w' hw
  let u := { w with outlet := .stream .none }
  let u' := { w' with outlet := .stream .none }
  have hstart : Workspace.Alike u u' u u' := .start rfl
  have hnests := nests_alike u u' .common
  obtain ⟨_, -, hs, hr⟩ :=
    hnests name size values body (Simulation.runs body (.inr hnests)) (u := ()) hstart
  refine ⟨hr.eq, fun home hhome => ?_, hw.answers⟩
  obtain ⟨t, ht, ht'⟩ := hs.tapes home
  have hsame : u.tape home = u'.tape home := hw.tapes home hhome
  exact ht.trans ((congrArg (Tape.atop · t) hsame).trans ht'.symm)

variable {I : Interpretation R V} (hI : I.Respects (Workspace.Akin homes attentive))

include hI

/-- **A program ends alike in workspaces that it cannot tell apart.** -/
theorem respects_run {p : Program R} (hp : attentive ∨ p.Heedless) (env : Array V) :
    Action.Respects (Workspace.Akin homes attentive) (p.run I env) := by
  induction p generalizing env with
  | result x => exact fun _ _ hw => ⟨rfl, hw⟩
  | constant c next ih => exact ih _ (hp.imp_right fun hp => hp _) _
  | unary f x next ih =>
    exact .bind (hI.unary f _) fun v => ih _ (hp.imp_right fun hp => hp _) _
  | binary f x y next ih =>
    exact .bind (hI.binary f _ _) fun v => ih _ (hp.imp_right fun hp => hp _) _
  | write text next ih =>
    intro w w' hw
    simp only [run, Bind.bind, Run.write_eq, (hw.next_eq (hp.imp_right And.left)).1]
    exact ih _ (hp.imp_right fun hp => hp.2 _) env (hw.after [text])
  | active next ih =>
    intro w w' hw
    simp only [run, Bind.bind, Run.active_eq, (hw.next_eq (hp.imp_right And.left)).2]
    exact ih _ (hp.imp_right fun hp => hp.2 _) env hw
  | nested name size values body next _ ihnext =>
    exact .bind (respects_nestedRun name size values body)
      fun a => ihnext a.1 a.2 (hp.imp_right fun hp => hp _ _) env
  | fail e => exact fun _ _ hw => ⟨rfl, hw⟩
  | halt b => exact fun _ _ hw => ⟨rfl, hw⟩

/-- It takes the same course in both. -/
theorem course_congr {p : Program R} (hp : attentive ∨ p.Heedless) (env : Array V)
    {w w' : Workspace R} (hw : w.Akin homes attentive w') :
    p.course I env w = p.course I env w' := by
  induction p generalizing env w w' with
  | result x => rfl
  | constant c next ih => exact congrArg (List.cons _) (ih _ (hp.imp_right fun hp => hp _) _ hw)
  | unary f x next ih =>
    refine congrArg (List.cons _) (Action.Respects.onward_eq (hI.unary f _) ?_ hw)
    exact fun v _ _ hv => ih _ (hp.imp_right fun hp => hp _) _ hv
  | binary f x y next ih =>
    refine congrArg (List.cons _) (Action.Respects.onward_eq (hI.binary f _ _) ?_ hw)
    exact fun v _ _ hv => ih _ (hp.imp_right fun hp => hp _) _ hv
  | write text next ih =>
    simp only [course, Run.onward, Run.write_eq, (hw.next_eq (hp.imp_right And.left)).1]
    exact congrArg (List.cons _) (ih _ (hp.imp_right fun hp => hp.2 _) env (hw.after [text]))
  | active next ih =>
    simp only [course, Run.onward, Run.active_eq, (hw.next_eq (hp.imp_right And.left)).2]
    exact congrArg (List.cons _) (ih _ (hp.imp_right fun hp => hp.2 _) env hw)
  | nested name size values body next _ ihnext =>
    have hnested : Action.Respects (Workspace.Akin homes attentive)
        (nestedRun name size values body) := respects_nestedRun name size values body
    refine congrArg (List.cons _) (hnested.onward_eq ?_ hw)
    exact fun a _ _ hv => ihnext a.1 a.2 (hp.imp_right fun hp => hp _ _) env hv
  | fail e => rfl
  | halt b => rfl

/-- **A program writes the same texts in workspaces that it cannot tell apart.** -/
theorem written_congr {p : Program R} (hp : attentive ∨ p.Heedless) (env : Array V)
    {w w' : Workspace R} (hw : w.Akin homes attentive w') :
    p.written I env w = p.written I env w' :=
  congrArg (List.filterMap piece?) (course_congr hI hp env hw)

end Program

end Programs

end LogDensity
