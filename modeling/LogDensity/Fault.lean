/-!
# How an evaluation can stop

An evaluation stops early for one of two reasons. An `EvalError` is an answer: the model or its
input does not admit a value, and the caller is told so. A `Breach` is a broken contract: the
evaluation is abandoned on the spot, and only what has to be put back (the scopes of tapes) is.
-/

namespace LogDensity

/-- The two kinds of density a model can have. -/
inductive DensityKind
  | templated
  | virtual
  deriving DecidableEq, Repr

/-- The word for a kind. -/
def DensityKind.display : DensityKind → String
  | templated => "templated"
  | virtual => "virtual"

/-- Errors that an evaluation returns. -/
inductive EvalError
  /-- The model does not have a capability that was asked for. -/
  | configuration (model capability : String)
  /-- An operation for one kind of density was asked of a model with the other. -/
  | capabilityMismatch (model operation : String) (required found : DensityKind)
  /-- An error of the density itself. -/
  | domain (message : String)
  /-- There is no such discrete parameter. -/
  | outOfRange (index len : Nat)
  /-- A context lacks a variable. -/
  | missingVariable (name : String)
  /-- A context has a variable with another number of values. -/
  | sizeMismatch (name : String) (expected found : Nat)
  /-- An interrupt asked to stop. -/
  | interrupted
  /-- A text is not a JSON document. -/
  | json
  deriving DecidableEq, Repr

/-- The wording of an error. -/
def EvalError.message : EvalError → String
  | configuration model capability => s!"model `{model}` does not provide {capability}"
  | capabilityMismatch model operation required found =>
    s!"{operation} requires a model with a {required.display} density, " ++
      s!"but model `{model}` provides a {found.display} density"
  | domain message => message
  | outOfRange index len =>
    s!"index {index} is out of range for a model with {len} discrete parameters"
  | missingVariable name => s!"variable `{name}` not found in context"
  | sizeMismatch name expected found =>
    s!"variable `{name}` has {found} values, expected {expected}"
  | interrupted => "computation interrupted"
  | json => "could not parse variable context"

/-- Contracts that can be broken. -/
inductive Breach
  /-- A variable was used after the scope that recorded it was released. -/
  | staleVariable
  /-- A model was given too few parameters. -/
  | tooFewParameters (model : String) (needed given : Nat)
  /-- The dimensions of a variable do not multiply to the number of its values. -/
  | dimensionMismatch (name : String)
  /-- A product of dimensions does not fit 64 bits. -/
  | productOverflow
  /-- An exponent has no predecessor among the 32-bit integers. -/
  | exponentOverflow
  /-- The bounds of a clamp are not in order. -/
  | unorderedBounds
  /-- An element beyond the end was asked for. -/
  | indexOutOfRange (len index : Nat)
  /-- More elements were asked for than there are. -/
  | sliceOutOfRange (stop len : Nat)
  /-- Raised by a density. -/
  | custom (message : String)
  deriving DecidableEq, Repr

/-- The wording of a breach. -/
def Breach.message : Breach → String
  | staleVariable => "variable used after the arena scope that recorded it was recovered"
  | tooFewParameters model needed given =>
    s!"model `{model}` needs {needed} parameters, got {given}"
  | dimensionMismatch name => s!"dimensions of `{name}` do not match its number of values"
  | productOverflow => "attempt to multiply with overflow"
  | exponentOverflow => "attempt to subtract with overflow"
  | unorderedBounds => "min must be less than or equal to max"
  | indexOutOfRange len index =>
    s!"index out of bounds: the len is {len} but the index is {index}"
  | sliceOutOfRange stop len =>
    s!"range end index {stop} out of range for slice of length {len}"
  | custom message => message

/-- Why an evaluation ended without a value. -/
inductive Stop
  | error (e : EvalError)
  | breach (b : Breach)
  deriving DecidableEq, Repr

/-- What an evaluation ends with. -/
abbrev Outcome (α : Type) : Type :=
  Except Stop α

/-- Whether an outcome is a broken contract. -/
def isBreach {α : Type} : Outcome α → Bool
  | .error (.breach _) => true
  | _ => false

end LogDensity
