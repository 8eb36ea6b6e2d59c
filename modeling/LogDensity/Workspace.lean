import LogDensity.Diagnostics.Outlet
import LogDensity.Tape.Sweep

/-!
# Workspaces and runs

A `Workspace` is what an evaluation acts on: two tapes (a common one, and one of the caller's own),
the journal, the outlet for text, and the number of times an interrupt was asked. An `Action` is a
function on workspaces with a result; a `Run` is an action that may stop. Everything that has to
be undone is undone by a combinator around an action, whichever way the action ends: `withScope`
releases what was recorded on a tape, `collected` and `silently` put the outlet back.
-/

namespace LogDensity

/-- The two tapes of a workspace. -/
inductive Home
  | common
  | own
  deriving DecidableEq, Repr

/-- What an evaluation acts on. -/
structure Workspace (R : Type) where
  common : Tape R := {}
  own : Tape R := {}
  journal : Array Entry := #[]
  outlet : Diagnostics := .stream .none
  polls : Nat := 0

namespace Workspace

variable {R : Type}

/-- One of the two tapes. -/
def tape (w : Workspace R) : Home → Tape R
  | .common => w.common
  | .own => w.own

/-- Replaces one of the two tapes. -/
def setTape (w : Workspace R) (t : Tape R) : Home → Workspace R
  | .common => { w with common := t }
  | .own => { w with own := t }

/-- Makes an entry in the journal. -/
def note (w : Workspace R) (level : Level) (text : String) : Workspace R :=
  { w with journal := w.journal.push ⟨level, text⟩ }

/-- Releases a tape back to a mark. -/
def release (w : Workspace R) (home : Home) (mark : Nat) : Workspace R :=
  let before := w.tape home
  let after := before.release mark
  (w.setTape after home).note .debug s!"arena recovered from {before.size} to {after.size} nodes"

/-- Gives a message to the logger of the outlet, if there is one. -/
def inform (w : Workspace R) (message : String) : Workspace R :=
  match w.outlet with
  | .stream _ => w
  | .logger l =>
    let (l, entries) := l.log .info message
    { w with outlet := .logger l, journal := w.journal ++ entries }

end Workspace

/-- A function on workspaces with a result. -/
def Action (R α : Type) : Type :=
  Workspace R → α × Workspace R

/-- An action that may stop. -/
def Run (R α : Type) : Type :=
  Action R (Except Stop α)

namespace Action

variable {R α : Type}

/-- Opens a scope on a tape: `act` is given the present length of the tape as a mark, and all that
is on the tape from there on is released afterwards. -/
def withScope (home : Home) (act : Nat → Action R α) : Action R α := fun w =>
  let mark := (w.tape home).size
  let (a, w) := act mark w
  (a, w.release home mark)

/-- Runs without an outlet for text. -/
def silently (act : Action R α) : Action R α := fun w =>
  let (a, w') := act { w with outlet := .stream .none }
  (a, { w' with outlet := w.outlet })

/-- Collects the text that is written, and gives it to the logger of the outlet as one message,
unless there is none or the action ended in a breach. -/
def collected (broken : α → Bool) (act : Action R α) : Action R α := fun w =>
  let (a, w') := act { w with outlet := .stream (.attached (.memory "")) }
  let text := w'.outlet.text
  let w' := { w' with outlet := w.outlet }
  (a, if broken a || text.isEmpty then w' else w'.inform text)

/-- Lets text through to a stream, and collects it for a logger. -/
def routed (broken : α → Bool) (act : Action R α) : Action R α := fun w =>
  match w.outlet with
  | .stream _ => act w
  | .logger _ => collected broken act w

end Action

namespace Run

variable {R α β : Type}

instance : Monad (Run R) where
  pure a := fun w => (.ok a, w)
  bind act f := fun w =>
    match act w with
    | (.ok a, w) => f a w
    | (.error s, w) => (.error s, w)

/-- Stops. -/
def stop (s : Stop) : Run R α := fun w =>
  (.error s, w)

/-- Stops with an error. -/
def fail (e : EvalError) : Run R α :=
  stop (.error e)

/-- Stops with a breach. -/
def halt (b : Breach) : Run R α :=
  stop (.breach b)

/-- Goes on with a value or stops. -/
def ofExcept (a : Except Stop α) : Run R α := fun w =>
  (a, w)

/-- A look at the workspace. -/
def asks (f : Workspace R → α) : Run R α := fun w =>
  (.ok (f w), w)

/-- Acts on one tape. -/
def onTape (home : Home) (act : Tape R → Except Breach α × Tape R) : Run R α := fun w =>
  let (a, t) := act (w.tape home)
  (a.mapError .breach, w.setTape t home)

/-- Makes an entry in the journal. -/
def note (level : Level) (text : String) : Run R Unit := fun w =>
  (.ok (), w.note level text)

/-- Gives a message to the logger of the outlet. -/
def inform (message : String) : Run R Unit := fun w =>
  (.ok (), w.inform message)

/-- Writes to the stream of the outlet; the flag says whether the write succeeded. -/
def write (text : String) : Run R Bool := fun w =>
  match w.outlet with
  | .stream m =>
    let (taken, m) := m.write text
    (.ok taken, { w with outlet := .stream m })
  | .logger _ => (.ok true, w)

/-- Whether written text is passed to a stream. -/
def active : Run R Bool :=
  asks fun w =>
    match w.outlet with
    | .stream m => m.isActive
    | .logger _ => false

/-- Asks an interrupt, whose answers are numbered from zero, whether to stop. -/
def poll (interrupt : Nat → Bool) : Run R Bool := fun w =>
  (.ok (interrupt w.polls), { w with polls := w.polls + 1 })

/-- Opens a scope around a run. -/
def withScope (home : Home) (act : Nat → Run R α) : Run R α :=
  Action.withScope home act

/-- Runs without an outlet for text. -/
def silently (act : Run R α) : Run R α :=
  Action.silently act

/-- Collects the text of a run for the logger. -/
def collected (act : Run R α) : Run R α :=
  Action.collected isBreach act

/-- Sends the text of a run where the outlet says. -/
def routed (act : Run R α) : Run R α :=
  Action.routed isBreach act

end Run

end LogDensity
