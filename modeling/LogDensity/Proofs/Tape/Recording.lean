import LogDensity.Evaluation.Differentiate
import Mathlib.Data.List.Basic

/-!
# What is recorded on a tape

One lemma for each way in which an operation can leave a tape: `Tape.record` appends a node if its
operands are live and only uses up a serial number otherwise, an operation on dual numbers records
its operands that are not constant (`Dual.ofOperation`), and `Tape.leaves` records one node without
operands per value.
-/

namespace LogDensity

variable {R : Type}

namespace Tape

theorem Live.index_lt {t : Tape R} {h : Handle} (hl : t.Live h) : h.index < t.size := by
  obtain ⟨node, hnode, -⟩ := Option.map_eq_some_iff.1 hl
  exact (Array.getElem?_eq_some_iff.1 hnode).1

/-- A node that refers to its operands by position. -/
def nodeOf (operands : List (Handle × R)) (serial : Nat) : Node R where
  operands := operands.map fun o => (o.1.index, o.2)
  serial := serial

/-- With live operands a node is appended. -/
theorem record_of_live {t : Tape R} {operands : List (Handle × R)}
    (h : ∀ o ∈ operands, t.Live o.1) :
    t.record operands =
      (.ok ⟨t.size, t.nextSerial⟩,
        { t with
          nodes := t.nodes.push (nodeOf operands t.nextSerial)
          nextSerial := t.nextSerial + 1 }) := by
  simp only [record]
  exact if_pos h

/-- With a stale operand nothing is appended, but a serial number is used up. -/
theorem record_of_stale {t : Tape R} {operands : List (Handle × R)}
    (h : ¬ ∀ o ∈ operands, t.Live o.1) :
    t.record operands = (.error .staleVariable, { t with nextSerial := t.nextSerial + 1 }) := by
  simp only [record]
  exact if_neg h

/-- A handle is issued for live operands only; it names the end of the tape. -/
theorem record_eq_ok {t : Tape R} {operands : List (Handle × R)} {h : Handle} :
    (t.record operands).1 = .ok h ↔
      (∀ o ∈ operands, t.Live o.1) ∧ h = ⟨t.size, t.nextSerial⟩ := by
  by_cases hl : ∀ o ∈ operands, t.Live o.1
  · rw [record_of_live hl, Except.ok.injEq, eq_comm]
    exact (and_iff_right hl).symm
  · rw [record_of_stale hl]
    exact ⟨fun h => (nomatch h), fun h => absurd h.1 hl⟩

/-- Recording moves no node. -/
theorem getElem?_record {t : Tape R} {i : Nat} (hi : i < t.size)
    (operands : List (Handle × R)) : (t.record operands).2.nodes[i]? = t.nodes[i]? := by
  by_cases h : ∀ o ∈ operands, t.Live o.1
  · rw [record_of_live h, Array.getElem?_push]
    exact if_neg (Nat.ne_of_lt hi)
  · rw [record_of_stale h]

/-- Whether it succeeds or not, recording uses up one serial number. -/
theorem nextSerial_record (t : Tape R) (operands : List (Handle × R)) :
    (t.record operands).2.nextSerial = t.nextSerial + 1 := by
  by_cases h : ∀ o ∈ operands, t.Live o.1
  · rw [record_of_live h]
  · rw [record_of_stale h]

theorem recoveries_record (t : Tape R) (operands : List (Handle × R)) :
    (t.record operands).2.recoveries = t.recoveries := by
  by_cases h : ∀ o ∈ operands, t.Live o.1
  · rw [record_of_live h]
  · rw [record_of_stale h]

theorem size_le_record (t : Tape R) (operands : List (Handle × R)) :
    t.size ≤ (t.record operands).2.size := by
  by_cases h : ∀ o ∈ operands, t.Live o.1
  · rw [record_of_live h]
    simp [size]
  · rw [record_of_stale h]
    exact Nat.le_refl t.size

theorem size_release (t : Tape R) (mark : Nat) : (t.release mark).size = min mark t.size := by
  simp [release, size]

/-- A release leaves the nodes before the mark as they are. -/
theorem getElem?_release_eq (t : Tape R) (mark i : Nat) :
    (t.release mark).nodes[i]? = if i < mark then t.nodes[i]? else none := by
  simp only [release, Array.take_eq_extract, Array.getElem?_extract, Nat.zero_add, Nat.sub_zero,
    Nat.lt_min]
  by_cases hsize : i < t.nodes.size
  · simp [hsize]
  · simp [Array.getElem?_eq_none (Nat.le_of_not_lt hsize)]

/-- A node after a release was there before. -/
theorem getElem?_release {t : Tape R} {mark i : Nat} {node : Node R}
    (h : (t.release mark).nodes[i]? = some node) : i < mark ∧ t.nodes[i]? = some node := by
  rw [getElem?_release_eq] at h
  exact Option.ite_none_right_eq_some.1 h

end Tape

namespace Dual

theorem mem_tracked {operands : List (Dual R × R)} {h : Handle} {p : R} :
    (h, p) ∈ tracked operands ↔ ∃ x, (x, p) ∈ operands ∧ x.handle = some h := by
  simp only [tracked, List.mem_filterMap, Option.map_eq_some_iff, Prod.mk.injEq, Prod.exists]
  constructor
  · rintro ⟨x, q, hmem, k, hk, rfl, rfl⟩
    exact ⟨x, hmem, hk⟩
  · rintro ⟨x, hmem, hx⟩
    exact ⟨x, p, hmem, h, hx, rfl, rfl⟩

theorem live_tracked {t : Tape R} {operands : List (Dual R × R)} :
    (∀ o ∈ tracked operands, t.Live o.1) ↔ ∀ o ∈ operands, o.1.Live t := by
  constructor
  · exact fun hl o ho h hh => hl (h, o.2) (mem_tracked.2 ⟨o.1, ho, hh⟩)
  · rintro hl ⟨h, p⟩ ho
    obtain ⟨x, hmem, hx⟩ := mem_tracked.1 ho
    exact hl (x, p) hmem h hx

/-- An operation on constants is not recorded. -/
theorem ofOperation_of_constant {operands : List (Dual R × R)} (h : tracked operands = [])
    (t : Tape R) (x : R) : ofOperation t x operands = (.ok (constant x), t) := by
  rw [ofOperation, h]

/-- An operation on live operands appends one node, unless they are constants. -/
theorem ofOperation_of_live {t : Tape R} {operands : List (Dual R × R)}
    (hne : tracked operands ≠ []) (hl : ∀ o ∈ operands, o.1.Live t) (x : R) :
    ofOperation t x operands =
      (.ok ⟨x, some ⟨t.size, t.nextSerial⟩⟩,
        { t with
          nodes := t.nodes.push (Tape.nodeOf (tracked operands) t.nextSerial)
          nextSerial := t.nextSerial + 1 }) := by
  have hrecord := Tape.record_of_live (live_tracked.2 hl)
  unfold ofOperation
  cases htr : tracked operands with
  | nil => exact absurd htr hne
  | cons o os =>
    rw [htr] at hrecord
    simp only [hrecord]
    rfl

/-- An operation with a stale operand only uses up a serial number. -/
theorem ofOperation_of_stale {t : Tape R} {operands : List (Dual R × R)}
    (hs : ¬ ∀ o ∈ operands, o.1.Live t) (x : R) :
    ofOperation t x operands =
      (.error .staleVariable, { t with nextSerial := t.nextSerial + 1 }) := by
  have hrecord := Tape.record_of_stale fun h => hs (live_tracked.1 h)
  unfold ofOperation
  cases htr : tracked operands with
  | nil =>
    rw [← live_tracked, htr] at hs
    exact absurd (fun _ h => nomatch h) hs
  | cons o os =>
    rw [htr] at hrecord
    simp only [hrecord]
    rfl

/-- Variables with nodes side by side, from a position and a serial number on. -/
def leavesFrom (index serial : Nat) (xs : List R) : List (Dual R) :=
  xs.zipIdx.map fun (x, i) => ⟨x, some ⟨index + i, serial + i⟩⟩

theorem leavesFrom_cons (index serial : Nat) (x : R) (xs : List R) :
    leavesFrom index serial (x :: xs) =
      ⟨x, some ⟨index, serial⟩⟩ :: leavesFrom (index + 1) (serial + 1) xs := by
  rw [leavesFrom, List.zipIdx_cons']
  simp [leavesFrom, Nat.add_assoc, Nat.add_comm 1]

end Dual

namespace Tape

/-- Nodes of variables, from a serial number on. -/
def leafNodes (R : Type) (serial n : Nat) : List (Node R) :=
  (List.range n).map fun i => ⟨[], serial + i⟩

theorem leafNodes_succ (R : Type) (serial n : Nat) :
    leafNodes R serial (n + 1) = ⟨[], serial⟩ :: leafNodes R (serial + 1) n := by
  simp [leafNodes, List.range_succ_eq_map, Nat.add_assoc, Nat.add_comm 1]

theorem leaf_eq (t : Tape R) (x : R) :
    Dual.leaf t x = (⟨x, some ⟨t.size, t.nextSerial⟩⟩,
      { t with nodes := t.nodes.push ⟨[], t.nextSerial⟩, nextSerial := t.nextSerial + 1 }) := by
  have h : ∀ o ∈ ([] : List (Handle × R)), t.Live o.1 := fun _ h => nomatch h
  rw [Dual.leaf, record_of_live h]
  rfl

/-- One node per value is appended, and the variables name these nodes in order. -/
theorem leaves_eq (t : Tape R) (xs : List R) :
    t.leaves xs = (Dual.leavesFrom t.size t.nextSerial xs,
      { t with
        nodes := t.nodes ++ (leafNodes R t.nextSerial xs.length).toArray
        nextSerial := t.nextSerial + xs.length }) := by
  induction xs generalizing t with
  | nil => simp [leaves, Dual.leavesFrom, leafNodes]
  | cons x xs ih =>
    rw [leaves, leaf_eq]
    simp only [ih, List.length_cons, leafNodes_succ, Dual.leavesFrom_cons, size, Array.size_push]
    simp [Nat.add_assoc, Nat.add_comm 1]

theorem getElem?_leaves (t : Tape R) (xs : List R) (i : Nat) :
    (t.leaves xs).2.nodes[i]? =
      if i < t.size then t.nodes[i]?
      else if i < t.size + xs.length then some ⟨[], t.nextSerial + (i - t.size)⟩ else none := by
  have hsize : t.nodes.size = t.size := rfl
  rw [leaves_eq]
  simp only
  rw [Array.getElem?_append, hsize]
  by_cases hlow : i < t.size
  · rw [if_pos hlow, if_pos hlow]
  · rw [if_neg hlow, if_neg hlow, List.getElem?_toArray, leafNodes, List.getElem?_map]
    by_cases hi : i < t.size + xs.length
    · rw [if_pos hi, List.getElem?_range (by omega), Option.map_some]
    · rw [if_neg hi, List.getElem?_eq_none (by simp; omega), Option.map_none]

theorem size_leaves (t : Tape R) (xs : List R) :
    (t.leaves xs).2.size = t.size + xs.length := by
  rw [leaves_eq]
  simp [size, leafNodes]

end Tape

end LogDensity
