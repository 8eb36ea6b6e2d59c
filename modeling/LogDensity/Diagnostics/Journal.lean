/-!
# The journal

Beside the text that densities write, an evaluation makes entries in a journal: events of the
library itself and what is logged to it. An entry has one of four levels, and a reader of the
journal sees those up to a threshold.
-/

namespace LogDensity

/-- How important an entry is. -/
inductive Level
  | error
  | warn
  | info
  | debug
  deriving DecidableEq, Repr

namespace Level

/-- The word for a level. -/
def name : Level → String
  | error => "error"
  | warn => "warn"
  | info => "info"
  | debug => "debug"

/-- The more important levels come first. -/
def rank : Level → Nat
  | error => 1
  | warn => 2
  | info => 3
  | debug => 4

end Level

/-- An entry of the journal. -/
structure Entry where
  level : Level
  text : String
  deriving DecidableEq, Repr

/-- The entries that a reader with a threshold sees; `none` sees nothing. -/
def visible (threshold : Option Level) (entries : List Entry) : List Entry :=
  entries.filter fun e => e.level.rank ≤ (threshold.map Level.rank).getD 0

end LogDensity
