import LogDensity.Fault

/-!
# The tape

A tape is the record of a computation: one node per operation, holding the positions of its
operands and the partial derivatives of its result. Nodes are only appended (`record`) and
released from the end (`release`), so a position may be used again. Every node therefore gets a
serial number that no other node of the tape ever has, and a `Handle` names a node by position and
serial number together: it is live as long as that very node is there.
-/

namespace LogDensity

/-- The name of a recorded node. -/
structure Handle where
  index : Nat
  serial : Nat
  deriving DecidableEq, Repr

/-- A recorded operation: positions of the operands, with the partial derivatives of the result. -/
structure Node (R : Type) where
  operands : List (Nat × R)
  serial : Nat

/-- The nodes recorded and not yet released, the next serial number, and how often nodes were
released. -/
structure Tape (R : Type) where
  nodes : Array (Node R) := #[]
  nextSerial : Nat := 0
  recoveries : Nat := 0

namespace Tape

variable {R : Type}

/-- The number of nodes. -/
def size (t : Tape R) : Nat :=
  t.nodes.size

/-- The node that the handle names is still there. -/
def Live (t : Tape R) (h : Handle) : Prop :=
  (t.nodes[h.index]?).map Node.serial = some h.serial

instance (t : Tape R) (h : Handle) : Decidable (t.Live h) :=
  inferInstanceAs (Decidable (_ = _))

/-- Appends a node with the given operands and partial derivatives. A stale operand is a breach;
the serial number is used up even then. -/
def record (t : Tape R) (operands : List (Handle × R)) : Except Breach Handle × Tape R :=
  let serial := t.nextSerial
  let t := { t with nextSerial := serial + 1 }
  if ∀ o ∈ operands, t.Live o.1 then
    let node := { operands := operands.map fun o => (o.1.index, o.2), serial }
    (.ok ⟨t.nodes.size, serial⟩, { t with nodes := t.nodes.push node })
  else (.error .staleVariable, t)

/-- Releases every node from position `mark` on. -/
def release (t : Tape R) (mark : Nat) : Tape R :=
  { t with nodes := t.nodes.take mark, recoveries := t.recoveries + 1 }

end Tape

end LogDensity
