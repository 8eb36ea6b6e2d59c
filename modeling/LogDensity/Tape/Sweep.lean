import LogDensity.Dual

/-!
# The reverse sweep

`gradient` computes the derivatives of one recorded result with respect to any list of numbers in
a single pass over the tape, from the node of the result back to a mark. An adjoint is the
derivative of the result with respect to a node; each node passes its own on to its operands,
weighted by the partial derivatives, and since operands come before the node, an adjoint is
complete when the pass reaches its node. Nodes before the mark take no part.
-/

namespace LogDensity.Tape

variable {R : Type} [Add R] [Mul R] [Zero R] [One R] [BEq R]

/-- Adds `a` times the partial derivative to the adjoint of each operand at or after the mark. -/
def spread (mark : Nat) (a : R) : List (Nat × R) → Array R → Except Breach (Array R)
  | [], adjoints => .ok adjoints
  | (i, p) :: operands, adjoints =>
    if i < mark then spread mark a operands adjoints
    else
      match adjoints[i - mark]? with
      | none => .error (.indexOutOfRange adjoints.size (i - mark))
      | some x => spread mark a operands (adjoints.setIfInBounds (i - mark) (x + a * p))

/-- Passes on the adjoints of the last `n` nodes counted from the mark, the last one first. A zero
adjoint has nothing to pass on. -/
def sweep (t : Tape R) (mark : Nat) : Nat → Array R → Except Breach (Array R)
  | 0, adjoints => .ok adjoints
  | n + 1, adjoints =>
    match adjoints[n]?, t.nodes[mark + n]? with
    | some a, some node =>
      if a == 0 then sweep t mark n adjoints
      else
        match spread mark a node.operands adjoints with
        | .ok adjoints => sweep t mark n adjoints
        | .error b => .error b
    | _, _ => .error (.indexOutOfRange adjoints.size n)

/-- The position of a number counted from the mark, if it was recorded there. -/
def offset? (mark : Nat) (x : Dual R) : Option Nat :=
  x.index?.bind fun i => if i < mark then none else some (i - mark)

/-- The adjoints of all nodes from the mark on. -/
def adjoints (t : Tape R) (mark : Nat) (out : Dual R) : Except Breach (Array R) :=
  let zeros := Array.replicate (t.size - mark) 0
  match offset? mark out with
  | none => .ok zeros
  | some i =>
    if i < zeros.size then sweep t mark (i + 1) (zeros.setIfInBounds i 1)
    else .error (.indexOutOfRange zeros.size i)

/-- The derivatives of `out` with respect to each number of `wrt`, by a sweep back to `mark`. For
constants and for numbers recorded before the mark they are zero. -/
def gradient (t : Tape R) (mark : Nat) (out : Dual R) (wrt : List (Dual R)) :
    Except Breach (List R) :=
  if ∀ x ∈ out :: wrt, x.Live t then
    (t.adjoints mark out).map fun adjoints =>
      wrt.map fun x => ((offset? mark x).bind fun i => adjoints[i]?).getD 0
  else .error .staleVariable

end LogDensity.Tape
