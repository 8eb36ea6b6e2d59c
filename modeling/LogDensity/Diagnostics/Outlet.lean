import LogDensity.Diagnostics.Journal

/-!
# Where the text of a density goes

A density writes to `Messages`: nothing at all, or a text stream, which may be one that refuses
every write. A `Logger` takes whole messages with a severity. `Diagnostics` is the caller's choice
between the two: pass the stream on to the density, or collect what it writes and give it to the
logger as one message.
-/

namespace LogDensity

/-- A text stream. -/
inductive Stream
  /-- Keeps what is written. -/
  | memory (text : String)
  /-- Refuses every write. -/
  | broken
  deriving DecidableEq, Repr

namespace Stream

/-- The text that was kept. -/
def text : Stream → String
  | memory s => s
  | broken => ""

/-- Appends text; the flag says whether it was taken. -/
def write (s : String) : Stream → Bool × Stream
  | memory text => (true, memory (text ++ s))
  | broken => (false, broken)

end Stream

/-- The stream that a density is given, if any. Without one every write succeeds and is lost. -/
inductive Messages
  | none
  | attached (s : Stream)
  deriving DecidableEq, Repr

namespace Messages

/-- The text that was kept. -/
def text : Messages → String
  | none => ""
  | attached s => s.text

/-- Whether anything written will be passed to a stream. -/
def isActive : Messages → Bool
  | none => false
  | attached _ => true

/-- Appends text; the flag says whether the write succeeded. -/
def write (s : String) : Messages → Bool × Messages
  | none => (true, none)
  | attached stream =>
    let (taken, stream) := stream.write s
    (taken, attached stream)

/-- Appends texts one after the other; the flags say which writes succeeded. -/
def writeAll (m : Messages) : List String → List Bool × Messages
  | [] => ([], m)
  | s :: rest =>
    let (taken, m) := m.write s
    let (others, m) := m.writeAll rest
    (taken :: others, m)

/-- A description that shows only whether there is a stream. -/
def describe (m : Messages) : String :=
  s!"Messages({m.isActive})"

end Messages

/-- How serious a logged message is. -/
inductive Severity
  | debug
  | info
  | warn
  | error
  | fatal
  deriving DecidableEq, Repr

/-- The word for a severity. -/
def Severity.name : Severity → String
  | debug => "debug"
  | info => "info"
  | warn => "warn"
  | error => "error"
  | fatal => "fatal"

/-- A sink for whole messages. -/
inductive Logger
  /-- Writes one line per message to a stream, and ignores failures. -/
  | stream (s : Stream)
  /-- Makes an entry in the journal. -/
  | journal
  /-- Drops every message. -/
  | noop
  deriving DecidableEq, Repr

namespace Logger

/-- The text written to the stream of a logger. -/
def text : Logger → String
  | stream s => s.text
  | journal => ""
  | noop => ""

/-- The journal entry of a message; the journal has no level above an error. -/
def entry (severity : Severity) (message : String) : Entry :=
  match severity with
  | .debug => ⟨.debug, message⟩
  | .info => ⟨.info, message⟩
  | .warn => ⟨.warn, message⟩
  | .error => ⟨.error, message⟩
  | .fatal => ⟨.error, "FATAL: " ++ message⟩

/-- Logs a message, and gives the entries that it makes in the journal. -/
def log (severity : Severity) (message : String) : Logger → Logger × List Entry
  | stream s => (stream (s.write s!"[{severity.name}] {message}\n").2, [])
  | journal => (journal, [entry severity message])
  | noop => (noop, [])

/-- Logs messages one after the other. -/
def logAll (l : Logger) : List (Severity × String) → Logger × List Entry
  | [] => (l, [])
  | (severity, message) :: rest =>
    let (l, entries) := l.log severity message
    let (l, later) := l.logAll rest
    (l, entries ++ later)

end Logger

/-- Where the text of a density goes. -/
inductive Diagnostics
  /-- To the stream, as it is written. -/
  | stream (m : Messages)
  /-- Collected, to the logger, when the density is done. -/
  | logger (l : Logger)
  deriving DecidableEq, Repr

namespace Diagnostics

/-- The text that arrived. -/
def text : Diagnostics → String
  | stream m => m.text
  | logger l => l.text

/-- The stream for a call that takes no logger. -/
def asStream : Diagnostics → Diagnostics
  | stream m => stream m
  | logger _ => stream .none

/-- The logger for a call that takes no stream. -/
def asLogger : Diagnostics → Diagnostics
  | stream _ => logger .noop
  | logger l => logger l

/-- A description of the choice. -/
def describe : Diagnostics → String
  | stream m => s!"Stream({m.describe})"
  | logger _ => "Logger(Logger)"

end Diagnostics

end LogDensity
