import LogDensity.Evaluation.Differentiate
import LogDensity.Proofs.Tape.Recording

/-!
# A tape on top of another one

`Tape.atop b t` is the tape `b` with the nodes of `t` recorded behind its own: positions and serial
numbers of `t` are shifted by the length and by the next serial number of `b`. Whatever is done on
the upper tape is done on the stack in the same way, to shifted names: recording, releasing, the
test for live handles, and the sweep back to a mark commute with `atop`. So a computation behind a
mark cannot tell on which tape it runs.
-/

namespace LogDensity

variable {R : Type}

/-- The name that a node of an upper tape has on the stack. -/
def Handle.shift (b : Tape R) (h : Handle) : Handle :=
  ⟨b.size + h.index, b.nextSerial + h.serial⟩

/-- A node of an upper tape as it is on the stack. -/
def Node.shift (b : Tape R) (n : Node R) : Node R :=
  ⟨n.operands.map fun o => (b.size + o.1, o.2), b.nextSerial + n.serial⟩

/-- A number recorded on an upper tape as it is on the stack. -/
def Dual.shift (b : Tape R) (x : Dual R) : Dual R :=
  ⟨x.value, x.handle.map (Handle.shift b)⟩

namespace Tape

/-- The tape `b` with the nodes of `t` behind its own. -/
def atop (b t : Tape R) : Tape R where
  nodes := b.nodes ++ t.nodes.map (Node.shift b)
  nextSerial := b.nextSerial + t.nextSerial
  recoveries := b.recoveries + t.recoveries

variable (b t : Tape R)

theorem atop_empty : b.atop {} = b := by
  simp [atop]

theorem size_atop : (b.atop t).size = b.size + t.size := by
  simp [atop, size]

theorem getElem?_atop (i : Nat) :
    (b.atop t).nodes[b.size + i]? = (t.nodes[i]?).map (Node.shift b) := by
  rw [atop, Array.getElem?_append_right (by rw [size]; omega), size, Nat.add_sub_cancel_left,
    Array.getElem?_map]

theorem live_atop (h : Handle) : (b.atop t).Live (h.shift b) ↔ t.Live h := by
  simp only [Live, Handle.shift, getElem?_atop]
  cases t.nodes[h.index]? with
  | none => simp
  | some node => simp [Node.shift]

/-! ## Recording and releasing -/

/-- Operands on the stack. -/
def shiftOperands (operands : List (Handle × R)) : List (Handle × R) :=
  operands.map fun o => (o.1.shift b, o.2)

theorem live_shiftOperands {operands : List (Handle × R)} :
    (∀ o ∈ b.shiftOperands operands, (b.atop t).Live o.1) ↔ ∀ o ∈ operands, t.Live o.1 := by
  rw [shiftOperands, List.forall_mem_map]
  exact forall₂_congr fun o _ => live_atop b t o.1

theorem nodeOf_shiftOperands (operands : List (Handle × R)) (serial : Nat) :
    nodeOf (b.shiftOperands operands) (b.nextSerial + serial) =
      (nodeOf operands serial).shift b := by
  simp [nodeOf, shiftOperands, Node.shift, Handle.shift]

theorem record_atop (operands : List (Handle × R)) :
    (b.atop t).record (b.shiftOperands operands) =
      ((t.record operands).1.map (Handle.shift b), b.atop (t.record operands).2) := by
  by_cases h : ∀ o ∈ operands, t.Live o.1
  · rw [record_of_live h, record_of_live ((live_shiftOperands b t).2 h), size_atop]
    refine Prod.ext rfl ?_
    simp only [atop, nodeOf_shiftOperands, Array.push_append, Array.map_push, Nat.add_assoc]
  · rw [record_of_stale h, record_of_stale (mt (live_shiftOperands b t).1 h)]
    rfl

theorem release_atop (mark : Nat) :
    (b.atop t).release (b.size + mark) = b.atop (t.release mark) := by
  have hleft : b.nodes.extract 0 (b.nodes.size + mark) = b.nodes :=
    Array.extract_eq_self_of_le (Nat.le_add_right _ _)
  simp only [release, atop, Array.take_eq_extract, Array.extract_append, size, hleft,
    Nat.zero_sub, Nat.add_sub_cancel_left, Array.map_extract, Nat.add_assoc]

end Tape

namespace Dual

variable (b t : Tape R)

theorem live_shift (x : Dual R) : (x.shift b).Live (b.atop t) ↔ x.Live t := by
  unfold Live shift
  cases x.handle with
  | none => simp
  | some h => simpa using Tape.live_atop b t h

theorem tracked_shift (operands : List (Dual R × R)) :
    tracked (operands.map fun o => (o.1.shift b, o.2)) = b.shiftOperands (tracked operands) := by
  induction operands with
  | nil => rfl
  | cons o operands ih =>
    obtain ⟨x, p⟩ := o
    unfold tracked Tape.shiftOperands at ih ⊢
    cases hx : x.handle with
    | none => simpa [shift, hx] using ih
    | some h => simpa [shift, hx] using ih

theorem ofOperation_atop (x : R) (operands : List (Dual R × R)) :
    ofOperation (b.atop t) x (operands.map fun o => (o.1.shift b, o.2)) =
      ((ofOperation t x operands).1.map (shift b), b.atop (ofOperation t x operands).2) := by
  simp only [ofOperation, tracked_shift]
  cases tracked operands with
  | nil => rfl
  | cons o os =>
    have h := Tape.record_atop b t (o :: os)
    simp only [Tape.shiftOperands, List.map_cons] at h ⊢
    rw [h]
    cases (t.record (o :: os)).1 <;> rfl

theorem leaf_atop (x : R) :
    leaf (b.atop t) x = ((leaf t x).1.shift b, b.atop (leaf t x).2) := by
  have h := Tape.record_atop b t []
  simp only [Tape.shiftOperands, List.map_nil] at h
  unfold leaf
  rw [h]
  cases t.record [] with
  | mk a t' => cases a <;> rfl

variable [Scalar R]

theorem unary_atop (f : Unary) (x : Dual R) :
    unary (b.atop t) f (x.shift b) = ((unary t f x).1.map (shift b), b.atop (unary t f x).2) := by
  unfold unary
  split
  · rfl
  · exact ofOperation_atop b t _ [(x, _)]

theorem binary_atop (f : Binary) (x y : Dual R) :
    binary (b.atop t) f (x.shift b) (y.shift b) =
      ((binary t f x y).1.map (shift b), b.atop (binary t f x y).2) :=
  ofOperation_atop b t _ [(x, _), (y, _)]

end Dual

namespace Tape

theorem leaves_atop (b t : Tape R) (xs : List R) :
    (b.atop t).leaves xs = ((t.leaves xs).1.map (Dual.shift b), b.atop (t.leaves xs).2) := by
  induction xs generalizing t with
  | nil => rfl
  | cons x xs ih =>
    simp only [leaves, Dual.leaf_atop, ih, List.map_cons]

/-! ## Sweeping -/

theorem offset?_shift (b : Tape R) (mark : Nat) (x : Dual R) :
    offset? (b.size + mark) (x.shift b) = offset? mark x := by
  unfold offset? Dual.index? Dual.shift
  cases x.handle with
  | none => rfl
  | some h => simp [Handle.shift, Nat.add_sub_add_left]

theorem spread_shift [Add R] [Mul R] (b : Tape R) (mark : Nat) (a : R)
    (operands : List (Nat × R)) (adjoints : Array R) :
    spread (b.size + mark) a (operands.map fun o => (b.size + o.1, o.2)) adjoints =
      spread mark a operands adjoints := by
  induction operands generalizing adjoints with
  | nil => rfl
  | cons o operands ih =>
    simp only [List.map_cons, spread, ih, Nat.add_lt_add_iff_left, Nat.add_sub_add_left]

section

variable [Add R] [Mul R] [Zero R] [BEq R] (b t : Tape R) (mark : Nat)

theorem sweep_atop (n : Nat) (adjoints : Array R) :
    (b.atop t).sweep (b.size + mark) n adjoints = t.sweep mark n adjoints := by
  induction n generalizing adjoints with
  | zero => rfl
  | succ n ih =>
    simp only [sweep, Nat.add_assoc, getElem?_atop]
    cases adjoints[n]? with
    | none => rfl
    | some a =>
      cases t.nodes[mark + n]? with
      | none => rfl
      | some node =>
        simp only [Option.map_some, Node.shift, spread_shift, ih]

variable [One R]

theorem adjoints_atop (out : Dual R) :
    (b.atop t).adjoints (b.size + mark) (out.shift b) = t.adjoints mark out := by
  simp only [adjoints, size_atop, Nat.add_sub_add_left, offset?_shift, sweep_atop]

/-- **A sweep on a stack of tapes is the sweep on the upper one.** -/
theorem gradient_atop (out : Dual R) (wrt : List (Dual R)) :
    (b.atop t).gradient (b.size + mark) (out.shift b) (wrt.map (Dual.shift b)) =
      t.gradient mark out wrt := by
  have hlive : (∀ x ∈ out.shift b :: wrt.map (Dual.shift b), x.Live (b.atop t)) ↔
      ∀ x ∈ out :: wrt, x.Live t := by
    rw [← List.map_cons, List.forall_mem_map]
    exact forall₂_congr fun x _ => Dual.live_shift b t x
  simp only [gradient, hlive, adjoints_atop, List.map_map, Function.comp_def, offset?_shift]

end

end Tape

end LogDensity
