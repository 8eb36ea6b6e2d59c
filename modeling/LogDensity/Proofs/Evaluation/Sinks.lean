import LogDensity.Proofs.Evaluation.Response

/-!
# A sink never changes a result

An outlet is one of seven: no stream, a stream that works or refuses every write, and a logger that
writes to such a stream, to the journal, or nowhere. A density with a logger is run on a stream of
its own. So an evaluation learns of its outlet only what that stream answers
(`Workspace.feedback`), and a heedless density does not look at that. Workspaces that hold the same
tapes and have the same feedback, unless the density is heedless, are kindred
(`Workspace.Kindred`): an evaluation ends alike in both, and leaves them kindred.

* `Model.outlet_irrelevant`: with a heedless density the outlet makes no difference to values,
  errors, buffers and tapes.
-/

namespace LogDensity

variable {R α β : Type}

theorem Diagnostics.answers_feed_after (o : Diagnostics) (texts : List String) :
    (o.after texts).feed.answers = o.feed.answers := by
  cases o with
  | stream m => exact m.answers_writeAll texts
  | logger l => rfl

/-- What a density will be answered. -/
def Workspace.feedback (w : Workspace R) : Bool × Bool :=
  w.outlet.feed.answers

/-- The tapes are the same, and an attentive density is answered the same. -/
structure Workspace.Kindred (attentive : Prop) (w w' : Workspace R) : Prop where
  tapes : ∀ home, w.tape home = w'.tape home
  feedback : attentive → w.feedback = w'.feedback

namespace Workspace

theorem feedback_of_stream {w : Workspace R} {m : Messages} (h : w.outlet = .stream m) :
    w.feedback = m.answers := by
  rw [feedback, h, Diagnostics.feed]

theorem feedback_of_logger {w : Workspace R} {l : Logger} (h : w.outlet = .logger l) :
    w.feedback = (true, true) := by
  rw [feedback, h]
  rfl

theorem feedback_setTape (w : Workspace R) (t : Tape R) (home : Home) :
    (w.setTape t home).feedback = w.feedback := by
  rw [feedback, outlet_setTape, feedback]

theorem feedback_inform (w : Workspace R) (message : String) :
    (w.inform message).feedback = w.feedback := by
  cases hw : w.outlet with
  | stream m => simp only [inform, hw]
  | logger l =>
    rw [feedback_of_logger hw]
    simp only [inform, hw]
    rfl

theorem feedback_flush (w v : Workspace R) (broken : Bool) :
    (w.flush v broken).feedback = w.feedback := by
  unfold flush
  dsimp only
  split
  · rfl
  · exact feedback_inform ..

theorem feedback_told (w : Workspace R) {m : Messages} (hm : m.answers = w.feedback)
    (broken : Bool) : (w.told m broken).feedback = w.feedback := by
  cases hw : w.outlet with
  | stream m' =>
    simp only [told, hw]
    exact hm
  | logger l =>
    simp only [told, hw]
    split
    · rfl
    · exact w.feedback_inform _

namespace Kindred

variable {attentive : Prop} {w w' : Workspace R}

theorem setTape (h : w.Kindred attentive w') (t : Tape R) (home : Home) :
    (w.setTape t home).Kindred attentive (w'.setTape t home) where
  tapes other := tape_setTape_congr (h.tapes other) t home
  feedback ha := by
    rw [feedback_setTape, feedback_setTape, h.feedback ha]

theorem release (h : w.Kindred attentive w') (home : Home) (mark : Nat) :
    (w.release home mark).Kindred attentive (w'.release home mark) := by
  have hset := h.setTape ((w.tape home).release mark) home
  unfold Workspace.release
  rw [← h.tapes home]
  exact ⟨hset.tapes, hset.feedback⟩

end Kindred

end Workspace

/-! ## Parts of an evaluation -/

/-- Wherever the text of an action goes, there is a workspace in which it is run, with the same
tapes and with the answers that the outlet makes it hear. -/
theorem Action.exists_routed (broken : α → Bool) {act : Action R α}
    (hkeeps : ∀ w, (act w).2.feedback = w.feedback) (w : Workspace R) :
    ∃ v : Workspace R, (∀ home, v.tape home = w.tape home) ∧ v.outlet.answers = w.feedback ∧
      (routed broken act w).1 = (act v).1 ∧
      (∀ home, (routed broken act w).2.tape home = (act v).2.tape home) ∧
      (routed broken act w).2.feedback = w.feedback := by
  cases hw : w.outlet with
  | stream m =>
    have hrouted : routed broken act w = act w := by simp only [routed, hw]
    have hanswers : w.outlet.answers = w.feedback := by
      rw [hw, Workspace.feedback_of_stream hw, Diagnostics.answers]
    rw [hrouted]
    exact ⟨w, fun _ => rfl, hanswers, rfl, fun _ => rfl, hkeeps w⟩
  | logger l =>
    cases hrun : act w.collecting with
    | mk a v =>
      have hrouted : routed broken act w = (a, w.flush v (broken a)) :=
        (routed_of_logger hw).trans (collected_eq hrun)
      have htapes (home : Home) : w.collecting.tape home = w.tape home := by cases home <;> rfl
      have hanswers : w.collecting.outlet.answers = w.feedback :=
        (Workspace.feedback_of_logger hw).symm
      rw [hrouted]
      refine ⟨w.collecting, htapes, hanswers, by rw [hrun], fun home => ?_, w.feedback_flush v _⟩
      rw [hrun, Workspace.tape_flush]

namespace Action.Respects

variable {attentive : Prop}

theorem onTape_kindred (home : Home) (act : Tape R → Except Breach α × Tape R) :
    Action.Respects (Workspace.Kindred attentive) (Run.onTape home act) := by
  intro w w' hw
  simp only [Run.onTape, hw.tapes home]
  exact ⟨trivial, hw.setTape _ home⟩

theorem withScope (home : Home) {act : Nat → Run R α}
    (hact : ∀ mark, Action.Respects (Workspace.Kindred attentive) (act mark)) :
    Action.Respects (Workspace.Kindred attentive) (Run.withScope home act) := by
  intro w w' hw
  obtain ⟨hout, hafter⟩ := hact (w.tape home).size hw
  simp only [Run.withScope, Action.withScope, ← hw.tapes home]
  exact ⟨hout, hafter.release home _⟩

theorem reportNodes (home : Home) (name : String) (size mark : Nat) :
    Action.Respects (Workspace.Kindred attentive)
      (LogDensity.reportNodes (R := R) home name size mark) :=
  fun _ _ hw => ⟨rfl, hw.tapes, hw.feedback⟩

/-- An action that learns of its outlet only the answers may be given any outlet with the same
feedback. -/
theorem routed {broken : α → Bool} {act : Action R α}
    (hact : Action.Respects (Workspace.Akin (fun _ => True) attentive) act)
    (hkeeps : ∀ w, (act w).2.feedback = w.feedback) :
    Action.Respects (Workspace.Kindred attentive) (Action.routed broken act) := by
  intro w w' hw
  obtain ⟨v, htapes, hanswers, hout, hafter, hfeedback⟩ := exists_routed broken hkeeps w
  obtain ⟨v', htapes', hanswers', hout', hafter', hfeedback'⟩ := exists_routed broken hkeeps w'
  have hakin : v.Akin (fun _ => True) attentive v' :=
    ⟨fun home _ => by rw [htapes, htapes', hw.tapes], fun ha => by
      rw [hanswers, hanswers', hw.feedback ha]⟩
  obtain ⟨hsame, hleft⟩ := hact hakin
  exact ⟨by rw [hout, hout', hsame], fun home => by rw [hafter, hafter', hleft.tapes home trivial],
    fun ha => by rw [hfeedback, hfeedback', hw.feedback ha]⟩

theorem needed (name : String) (size : Nat) (xs : List R) :
    Action.Respects (Workspace.Kindred attentive) (Run.needed name size xs) := by
  intro w w' hw
  unfold Run.needed
  split <;> exact ⟨rfl, hw⟩

variable [Scalar R]

theorem differentiate (home : Home) (name : String) (size : Nat) (xs : List R)
    {density : List (Dual R) → Run R (Dual R)}
    (hdensity : ∀ vars, Action.Respects (Workspace.Kindred attentive) (density vars)) :
    Action.Respects (Workspace.Kindred attentive)
      (LogDensity.differentiate home name size xs density) := by
  unfold LogDensity.differentiate
  refine bind (needed name size xs) fun xs => withScope home fun mark => ?_
  refine bind (onTape_kindred home _) fun vars => bind (hdensity vars) fun out => ?_
  exact bind (onTape_kindred home _) fun partials =>
    bind (reportNodes home name size mark) fun _ _ _ hw => ⟨rfl, hw⟩

/-- A program on recorded numbers, wherever its text goes. -/
theorem density {program : Mode → List (Slot R) → List Int → Program R}
    (hp : attentive ∨ ∀ mode xs ints, (program mode xs ints).Heedless) (home : Home) (mode : Mode)
    (ints : List Int) (vars : List (Dual R)) :
    Action.Respects (Workspace.Kindred attentive)
      (Run.routed (runDensity (.recorded home) program mode ints vars)) := by
  let p := program mode ((Interpretation.recorded home).slots vars) ints
  have hrun : Action.Respects (Workspace.Akin (fun _ => True) attentive)
      (p.run (.recorded home) vars.toArray) :=
    p.respects_run (Interpretation.respects_recorded trivial) (hp.imp_right fun hp => hp _ _ _) _
  refine routed hrun fun w => ?_
  have houtlet : (p.run (.recorded home) vars.toArray w).2.outlet = _ :=
    p.outlet_run ⟨fun _ _ w => Workspace.outlet_setTape w _ home,
      fun _ _ _ w => Workspace.outlet_setTape w _ home⟩ vars.toArray w
  exact (congrArg (fun o => o.feed.answers) houtlet).trans (Diagnostics.answers_feed_after ..)

omit [Scalar R] in
/-- A report, wherever its text goes. -/
theorem report {r : Report α} (hr : attentive ∨ r.Heedless) (broken : α → Bool) :
    Action.Respects (R := R) (Workspace.Kindred attentive) (Action.routed broken r.run) := by
  have hfeedback (w : Workspace R) :
      (Action.routed broken r.run w).2.feedback = w.feedback := by
    rw [Report.routed_run]
    refine w.feedback_told ?_ _
    rw [Report.on_eq_writeAll, Messages.answers_writeAll, Workspace.feedback]
  intro w w' hw
  refine ⟨?_, fun home => ?_, fun ha => ?_⟩
  · rw [Report.routed_run, Report.routed_run]
    exact (Report.on_congr hr hw.feedback).1
  · rw [Report.tape_routed, Report.tape_routed, hw.tapes home]
  · rw [hfeedback, hfeedback, hw.feedback ha]

end Action.Respects

/-! ## Models -/

namespace Model

variable [Scalar R] {P : Type → Type} [Container P] {m : Model R}

section

variable {attentive : Prop} (hm : attentive ∨ m.Heedless P) (params : P R) (ints : List Int)
  (mode : Mode)

include hm

/-- Evaluations end alike in kindred workspaces. -/
theorem respects_logProb :
    Action.Respects (Workspace.Kindred attentive) (m.logProb params ints mode) := by
  obtain ⟨space, density⟩ := m
  cases density with
  | templated program =>
    refine .bind (.needed ..) fun xs => .withScope .common fun _ => ?_
    exact .bind (.onTape_kindred .common _) fun vars =>
      .bind (.density hm .common mode ints vars) fun _ _ _ hw => ⟨rfl, hw⟩
  | virtual entries => exact .report (hm.imp_right fun hm => (hm mode params).1) isBreach

/-- Evaluations of the gradient end alike in kindred workspaces, the buffer included. -/
theorem respects_logProbGrad (home : Home) (buffer : P R) :
    Action.Respects (Workspace.Kindred attentive)
      (m.logProbGrad home params ints mode buffer) := by
  obtain ⟨space, density⟩ := m
  cases density with
  | templated program =>
    intro w w' hw
    have hevaluation := Action.Respects.differentiate home space.name space.size
      (Container.toList params) (.density hm home mode ints)
    obtain ⟨hout, hafter⟩ := hevaluation hw
    rw [logProbGrad_templated, logProbGrad_templated]
    exact ⟨congrArg (deliver buffer) hout, hafter⟩
  | virtual entries => exact .report (hm.imp_right fun hm => (hm mode params).2 buffer) _

end

/-- **With a heedless density the outlet makes no difference.** Whichever of the seven it is,
evaluations end as the density does without a stream, and leave the same gradient in the buffer and
the same tapes. -/
theorem outlet_irrelevant (hm : m.Heedless P) (params : P R) (ints : List Int) (mode : Mode)
    (w : Workspace R) (o o' : Diagnostics) :
    let value o := m.logProb params ints mode { w with outlet := o }
    let gradient home buffer o := m.logProbGrad home params ints mode buffer { w with outlet := o }
    (value o).1 = (value o').1 ∧ (∀ home, (value o).2.tape home = (value o').2.tape home) ∧
      (value o).1 = (m.response params ints mode .none).outcome ∧
      ∀ home buffer, (gradient home buffer o).1 = (gradient home buffer o').1 ∧
        (∀ other, (gradient home buffer o).2.tape other = (gradient home buffer o').2.tape other) ∧
        (gradient home buffer o).1.2 =
          (m.gradientResponse params ints mode buffer .none).outcome := by
  intro value gradient
  -- the workspaces differ in the outlet alone, to which the density pays no heed
  have hkindred : ({ w with outlet := o } : Workspace R).Kindred False { w with outlet := o' } :=
    ⟨fun home => by cases home <;> rfl, False.elim⟩
  have hheedless : False ∨ m.Heedless P := .inr hm
  obtain ⟨hvalue, hafter⟩ := respects_logProb hheedless params ints mode hkindred
  refine ⟨hvalue, hafter.tapes, ?_, fun home buffer => ?_⟩
  · have hquiet : m.response params ints mode o.feed = m.response params ints mode .none :=
      response_congr hheedless params ints mode False.elim
    rw [← hquiet]
    exact (m.logProb_eq_response params ints mode { w with outlet := o }).1
  · obtain ⟨hgradient, hafter⟩ :=
      respects_logProbGrad hheedless params ints mode home buffer hkindred
    have hquiet : m.gradientResponse params ints mode buffer o.feed =
        m.gradientResponse params ints mode buffer .none :=
      gradientResponse_congr hheedless params ints mode buffer False.elim
    refine ⟨hgradient, hafter.tapes, ?_⟩
    rw [← hquiet]
    exact (m.logProbGrad_eq_response home params ints mode buffer { w with outlet := o }).1

end Model

theorem Failing.heedless_model (limit : Float) : (Failing.model limit).Heedless List := by
  intro mode xs ints
  cases xs with
  | nil => trivial
  | cons x xs =>
    intro y z
    change Program.Heedless (Step.toProgram (if _ then _ else _))
    split
    · exact ⟨rfl, fun _ => trivial⟩
    · trivial

theorem Model.outlet_irrelevant_failing :
    let m := Failing.model 0
    let params : List Datum := [1]
    let value o := m.logProb params [] .plain { outlet := o }
    let gradient o := m.logProbGrad .own params [] .plain [1, 1] { outlet := o }
    m.Heedless List ∧
      (value (.stream (.attached .broken))).1 = (value (.logger (.stream (.memory "")))).1 ∧
      (gradient (.stream .none)).1 = (gradient (.logger .journal)).1 := by
  intro m params value gradient
  have hm : m.Heedless List := Failing.heedless_model 0
  obtain ⟨hvalue, -⟩ := outlet_irrelevant hm params [] .plain {} (.stream (.attached .broken))
    (.logger (.stream (.memory "")))
  obtain ⟨-, -, -, hgradient⟩ := outlet_irrelevant hm params [] .plain {} (.stream .none)
    (.logger .journal)
  exact ⟨hm, hvalue, (hgradient .own [1, 1]).1⟩

end LogDensity
