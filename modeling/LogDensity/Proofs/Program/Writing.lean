import LogDensity.Proofs.Evaluation.Keeping
import LogDensity.Proofs.Program.Course
import LogDensity.Proofs.Program.Report

/-!
# What is written

The texts that a program writes, in order, show in its course (`Program.written`); those of a report
are read off the same way (`Report.written`). The outlet receives these texts and nothing else:
a stream appends them (`Messages.writeAll_memory`), and a logger is not called while the density
runs. What an outlet answers to a density, that a text was taken and that there is a stream at all,
does not change as texts are written (`Diagnostics.answers`).

* `Program.outlet_run`: the outlet after a run.
* `Report.on_eq_writeAll`: the stream after a report.
-/

namespace LogDensity

/-! ## Streams -/

namespace Messages

/-- What a stream answers to a density: whether it takes a text, and whether it is there. -/
def answers : Messages → Bool × Bool
  | none => (true, false)
  | attached (.memory _) => (true, true)
  | attached .broken => (false, true)

theorem fst_write (m : Messages) (text : String) : (m.write text).1 = m.answers.1 := by
  rcases m with _ | _ | _ <;> rfl

theorem isActive_eq (m : Messages) : m.isActive = m.answers.2 := by
  rcases m with _ | _ | _ <;> rfl

theorem answers_write (m : Messages) (text : String) : (m.write text).2.answers = m.answers := by
  rcases m with _ | _ | _ <;> rfl

theorem answers_writeAll (m : Messages) (texts : List String) :
    (m.writeAll texts).2.answers = m.answers := by
  induction texts generalizing m with
  | nil => rfl
  | cons text texts ih => exact (ih (m.write text).2).trans (m.answers_write text)

theorem writeAll_append (m : Messages) (texts texts' : List String) :
    (m.writeAll (texts ++ texts')).2 = ((m.writeAll texts).2.writeAll texts').2 := by
  induction texts generalizing m with
  | nil => rfl
  | cons text texts ih => exact ih (m.write text).2

/-- A stream that keeps what is written appends it. -/
theorem writeAll_memory (s : String) (texts : List String) :
    ((attached (.memory s)).writeAll texts).2 = attached (.memory (s ++ String.join texts)) := by
  induction texts generalizing s with
  | nil => rw [String.join_nil, String.append_empty]; rfl
  | cons text texts ih =>
    rw [String.join_cons, ← String.append_assoc]
    exact ih (s ++ text)

end Messages

/-! ## Outlets -/

namespace Diagnostics

/-- What an outlet answers to a density. -/
def answers : Diagnostics → Bool × Bool
  | stream m => m.answers
  | logger _ => (true, false)

/-- The outlet after texts were written. -/
def after : Diagnostics → List String → Diagnostics
  | stream m, texts => stream (m.writeAll texts).2
  | logger l, _ => logger l

theorem after_nil (o : Diagnostics) : o.after [] = o := by
  cases o <;> rfl

theorem after_cons (o : Diagnostics) (text : String) (texts : List String) :
    o.after (text :: texts) = (o.after [text]).after texts := by
  cases o <;> rfl

theorem answers_after (o : Diagnostics) (texts : List String) :
    (o.after texts).answers = o.answers := by
  cases o with
  | stream m => exact m.answers_writeAll texts
  | logger l => rfl

end Diagnostics

variable {R : Type}

namespace Run

theorem write_eq (text : String) (w : Workspace R) :
    Run.write text w =
      (.ok w.outlet.answers.1, { w with outlet := w.outlet.after [text] }) := by
  obtain ⟨common, own, journal, outlet, polls⟩ := w
  cases outlet with
  | stream m => exact congrArg (fun b => (Except.ok b, _)) (m.fst_write text)
  | logger l => rfl

theorem active_eq (w : Workspace R) : Run.active w = (.ok w.outlet.answers.2, w) := by
  obtain ⟨common, own, journal, outlet, polls⟩ := w
  cases outlet with
  | stream m => exact congrArg (fun b => (Except.ok b, _)) m.isActive_eq
  | logger l => rfl

end Run

/-! ## Programs -/

namespace Program

/-- The text that a step writes. -/
def piece? : Program R → Option String
  | write text _ => some text
  | _ => none

/-- A step that keeps the outlet, and what is written from there on. -/
theorem outlet_bind {α β : Type} {act : Run R α} (h : act.Keeps Workspace.outlet) {f : α → Run R β}
    {left : α → Workspace R → List (Program R)}
    (hf : ∀ a v, (f a v).2.outlet = v.outlet.after ((left a v).filterMap piece?))
    (w : Workspace R) :
    ((act >>= f) w).2.outlet = w.outlet.after ((act.onward left w).filterMap piece?) := by
  have hw := h w
  simp only [Bind.bind, Run.onward]
  generalize act w = out at *
  obtain ⟨a, v⟩ := out
  cases a with
  | ok a => exact (hf a v).trans (congrArg (Diagnostics.after · _) hw)
  | error s => exact hw.trans w.outlet.after_nil.symm

variable {V : Type} [Scalar R]

/-- The texts that a run writes, in order. -/
def written (I : Interpretation R V) (env : Array V) (p : Program R) (w : Workspace R) :
    List String :=
  (p.course I env w).filterMap piece?

/-- **The outlet receives what a program writes.** -/
theorem outlet_run {I : Interpretation R V} (hI : I.Keeps Workspace.outlet) (p : Program R)
    (env : Array V) (w : Workspace R) :
    (p.run I env w).2.outlet = w.outlet.after (p.written I env w) := by
  unfold written
  induction p generalizing env w with
  | result x => exact w.outlet.after_nil.symm
  | constant c next ih => exact ih _ _ w
  | unary f x next ih => exact outlet_bind (hI.unary f _) (fun v => ih _ _) w
  | binary f x y next ih => exact outlet_bind (hI.binary f _ _) (fun v => ih _ _) w
  | write text next ih =>
    simp only [run, course, Run.onward, Bind.bind, Run.write_eq, List.filterMap_cons, piece?]
    exact (ih _ env _).trans (Diagnostics.after_cons ..).symm
  | active next ih =>
    simp only [run, course, Run.onward, Bind.bind, Run.active_eq, List.filterMap_cons, piece?]
    exact ih _ _ w
  | nested name size values body next _ ihnext =>
    -- the other density is evaluated without an outlet, which is put back afterwards
    have hquiet (v : Workspace R) : (nestedRun name size values body v).2.outlet = v.outlet := rfl
    exact outlet_bind hquiet (fun a => ihnext a.1 a.2 _) w
  | fail e => exact w.outlet.after_nil.symm
  | halt b => exact w.outlet.after_nil.symm

end Program

/-! ## Reports -/

namespace Report

variable {α β : Type}

/-- The texts that a report writes on a stream, in order. -/
def written (m : Messages) : Report α → List String
  | done _ => []
  | write text next => text :: (next (m.write text).1).written (m.write text).2
  | active next => (next m.isActive).written m

/-- **The stream receives what a report writes.** -/
theorem on_eq_writeAll (r : Report α) (m : Messages) :
    (r.on m).2 = (m.writeAll (r.written m)).2 := by
  induction r generalizing m with
  | done a => rfl
  | write text next ih => exact ih _ _
  | active next ih => exact ih _ _

end Report

end LogDensity
