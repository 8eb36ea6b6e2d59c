import LogDensity.Program.Report

/-!
# Reports on a stream

A report sees nothing of a workspace but the stream that its text goes to. `Report.on` carries it
out on a stream alone, and gives its result with the stream afterwards. Under `Action.routed` the
stream is that of the outlet, or a new one whose text is then given to the logger
(`Diagnostics.feed`), so that a workspace changes in nothing but its outlet and in what a logger
does (`Workspace.told`).

* `Report.routed_run`: what a report does to a workspace, read off what it does to a stream.
-/

namespace LogDensity

variable {R α β : Type}

namespace Report

/-- Carries a report out on a stream. -/
def on (m : Messages) : Report α → α × Messages
  | done a => (a, m)
  | write text next => (next (m.write text).1).on (m.write text).2
  | active next => (next m.isActive).on m

theorem on_bind (r : Report α) (f : α → Report β) (m : Messages) :
    (r >>= f).on m = (f (r.on m).1).on (r.on m).2 := by
  change (r.bind f).on m = _
  induction r generalizing m with
  | done a => rfl
  | write text next ih => exact ih _ _
  | active next ih => exact ih _ _

/-- On a workspace whose outlet is a stream, a report changes that stream only. -/
theorem run_of_stream (r : Report α) {w : Workspace R} {m : Messages} (h : w.outlet = .stream m) :
    r.run w = ((r.on m).1, { w with outlet := .stream (r.on m).2 }) := by
  induction r generalizing w m with
  | done a =>
    obtain ⟨common, own, journal, outlet, polls⟩ := w
    obtain rfl : outlet = .stream m := h
    rfl
  | write text next ih =>
    simp only [run, Run.write, h]
    exact ih _ rfl
  | active next ih =>
    simp only [run, Run.active, Run.asks, h]
    exact ih _ h

end Report

/-- The stream that text goes to: that of the outlet, or a new one for a logger. -/
def Diagnostics.feed : Diagnostics → Messages
  | .stream m => m
  | .logger _ => .attached (.memory "")

/-- The workspace after its text went to a stream: the outlet is that stream, or its logger is given
the text, unless there is none or a contract was broken. -/
def Workspace.told (w : Workspace R) (m : Messages) (broken : Bool) : Workspace R :=
  match w.outlet with
  | .stream _ => { w with outlet := .stream m }
  | .logger _ => if broken || m.text.isEmpty then w else w.inform m.text

namespace Report

/-- **What a report does to a workspace.** -/
theorem routed_run (broken : α → Bool) (r : Report α) (w : Workspace R) :
    Action.routed broken r.run w =
      ((r.on w.outlet.feed).1,
        w.told (r.on w.outlet.feed).2 (broken (r.on w.outlet.feed).1)) := by
  cases h : w.outlet with
  | stream m =>
    simp only [Action.routed, Workspace.told, Diagnostics.feed, h]
    exact r.run_of_stream h
  | logger l =>
    have hrun : r.run { w with outlet := .stream (.attached (.memory "")) } = _ :=
      r.run_of_stream rfl
    have hback : { w with outlet := .logger l } = w := by rw [← h]
    simp only [Action.routed, Action.collected, Workspace.told, Diagnostics.feed, h, hrun, hback,
      Diagnostics.text]
    rfl

end Report

end LogDensity
