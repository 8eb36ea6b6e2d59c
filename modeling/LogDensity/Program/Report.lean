import LogDensity.Workspace

/-!
# Reports

A report is a computation that may write text, and ask whether text is kept, before it delivers its
result. The entry points of virtual models are reports: what they compute is their own, and only
what they write reaches the evaluation.
-/

namespace LogDensity

/-- A computation that writes text. -/
inductive Report (α : Type)
  | done (a : α)
  /-- Writes text; `next` learns whether the stream took it. -/
  | write (text : String) (next : Bool → Report α)
  /-- Asks whether written text is kept. -/
  | active (next : Bool → Report α)

namespace Report

variable {R α β : Type}

/-- Goes on with the result. -/
def bind (f : α → Report β) : Report α → Report β
  | done a => f a
  | write text next => write text fun b => (next b).bind f
  | active next => active fun b => (next b).bind f

instance : Monad Report where
  pure := done
  bind r f := r.bind f

/-- Writes text, whether or not it is kept. -/
def say (text : String) : Report Unit :=
  write text fun _ => done ()

/-- Carries a report out, writing to the outlet. -/
def run : Report α → Action R α
  | done a => fun w => (a, w)
  | write text next => fun w =>
    match Run.write text w with
    | (.ok taken, w) => (next taken).run w
    | (.error _, w) => (next false).run w
  | active next => fun w =>
    match Run.active w with
    | (.ok kept, w) => (next kept).run w
    | (.error _, w) => (next false).run w

end Report

end LogDensity
