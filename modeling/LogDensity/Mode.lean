/-!
# Modes of a log density

A log density is computed in one of four modes: with or without the terms that do not depend on
the parameters, and with or without the log Jacobian of the transform to unconstrained parameters.
-/

namespace LogDensity

/-- Which variant of a log density to compute. -/
structure Mode where
  /-- Leave out constant terms. -/
  propto : Bool := false
  /-- Add the log Jacobian. -/
  jacobian : Bool := false
  deriving DecidableEq, Repr

namespace Mode

/-- The full density without the Jacobian term. -/
def plain : Mode := ⟨false, false⟩

/-- Up to a constant, with the Jacobian term. -/
def proptoJacobian : Mode := ⟨true, true⟩

/-- The four modes, ordered by `propto` and then by `jacobian`. -/
def all : List Mode := [⟨false, false⟩, ⟨false, true⟩, ⟨true, false⟩, ⟨true, true⟩]

/-- The written form of a mode. -/
def display (m : Mode) : String :=
  s!"propto={m.propto}, jacobian={m.jacobian}"

end Mode

end LogDensity
