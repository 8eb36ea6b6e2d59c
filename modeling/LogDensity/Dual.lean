import LogDensity.Scalar.Basic
import LogDensity.Tape.Basic

/-!
# Dual numbers

A dual number is a value together with, unless it is a constant, the handle of the node that
records how it was computed. An operation computes its value from the values of its operands and
records one node that holds the operands that are not constant; an operation on constants records
nothing.
-/

namespace LogDensity

/-- A value, and the node that recorded it. -/
structure Dual (R : Type) where
  value : R
  handle : Option Handle := none

namespace Dual

variable {R : Type}

/-- A value that depends on no variable. -/
def constant (x : R) : Dual R :=
  ⟨x, none⟩

/-- Whether a number depends on no variable. -/
def isConstant (x : Dual R) : Bool :=
  x.handle.isNone

/-- The position of the node of a number. -/
def index? (x : Dual R) : Option Nat :=
  x.handle.map Handle.index

/-- The node of the number, if it has one, is still on the tape. -/
def Live (t : Tape R) (x : Dual R) : Prop :=
  ∀ h ∈ x.handle, t.Live h

instance (t : Tape R) (x : Dual R) : Decidable (x.Live t) :=
  inferInstanceAs (Decidable (∀ h ∈ x.handle, t.Live h))

/-- The operands that are not constant, with their partial derivatives. -/
def tracked (operands : List (Dual R × R)) : List (Handle × R) :=
  operands.filterMap fun o => o.1.handle.map (·, o.2)

/-- The result of an operation with value `x`, recorded if an operand is not constant. -/
def ofOperation (t : Tape R) (x : R) (operands : List (Dual R × R)) :
    Except Breach (Dual R) × Tape R :=
  match tracked operands with
  | [] => (.ok (constant x), t)
  | o :: os =>
    let (h, t) := t.record (o :: os)
    (h.map fun h => ⟨x, some h⟩, t)

/-- A new independent variable. -/
def leaf (t : Tape R) (x : R) : Dual R × Tape R :=
  match t.record [] with
  | (.ok h, t) => (⟨x, some h⟩, t)
  | (.error _, t) => (constant x, t)

variable [Scalar R]

/-- Applies a function of one argument. An integer power needs the exponent below its own for the
derivative. -/
def unary (t : Tape R) (f : Unary) (x : Dual R) : Except Breach (Dual R) × Tape R :=
  if f = .powi Int32.minValue then (.error .exponentOverflow, t)
  else ofOperation t (f.value x.value) [(x, f.slope x.value)]

/-- Applies a function of two arguments. -/
def binary (t : Tape R) (f : Binary) (x y : Dual R) : Except Breach (Dual R) × Tape R :=
  let slopes := f.slopes x.value y.value
  ofOperation t (f.value x.value y.value) [(x, slopes.1), (y, slopes.2)]

end Dual

end LogDensity
