import LogDensity.Proofs.Tape.Scopes
import LogDensity.Tape.Sweep
import Mathlib.Algebra.BigOperators.Group.Finset.Basic
import Mathlib.Algebra.BigOperators.Ring.Finset
import Mathlib.Tactic.Ring

/-!
# The chain rule along a tape

A function on the nodes is a derivative with respect to the node at `j` if it obeys the chain rule
(`Tape.ChainRule`): its value at a node is the sum of its values at the operands, weighted by the
partial derivatives, and one more at `j` itself. The reverse sweep computes any such function.

The invariant is a balance. While `n` nodes from the mark on are still to be passed, the adjoints
account for the derivative in two parts (`account`): what the first `n` adjoints will contribute,
and the adjoint of `j` if its node was passed. Passing a node moves its contribution to its operands
and leaves the balance alone (`account_succ`, `spread_spec`), so the adjoint found at `j` in the end
is the whole derivative (`sweep_spec`). A node with adjoint zero contributes nothing, and neither do
operands before the mark, where the derivative is zero.

* `gradient_eq_of_chainRule`: the gradient consists of the values of functions that obey the chain
  rule.
-/

namespace LogDensity.Tape

open Finset

theorem offset?_eq_some {mark i : Nat} {R : Type} {x : Dual R} :
    offset? mark x = some i ↔ x.index? = some (mark + i) := by
  unfold offset?
  cases x.index? with
  | none => simp
  | some k =>
    rw [Option.bind_some]
    split
    · simp; omega
    · simp; omega

section Balance

variable {R : Type} [CommRing R]

/-- `D` is the derivative of the nodes from `mark` on with respect to the one at `j`. -/
structure ChainRule (t : Tape R) (mark j : Nat) (D : Nat → R) : Prop where
  before : ∀ i < mark, D i = 0
  node : ∀ i, mark ≤ i → ∀ node, t.nodes[i]? = some node →
    D i = (if i = j then 1 else 0) + (node.operands.map fun o => o.2 * D o.1).sum

/-- What the adjoints of the first `n` nodes from the mark on contribute to the derivative. -/
def pending (D : Nat → R) (mark n : Nat) (adjoints : Array R) : R :=
  ∑ i ∈ range n, adjoints[i]?.getD 0 * D (mark + i)

/-- The adjoint of the node at `j`, if it is not among the first `n` nodes from the mark on. -/
def settled (mark j n : Nat) (adjoints : Array R) : R :=
  if mark + n ≤ j then adjoints[j - mark]?.getD 0 else 0

/-- The derivative with respect to the node at `j` that the adjoints account for when the first `n`
nodes from the mark on are still to be passed. -/
def account (D : Nat → R) (mark j n : Nat) (adjoints : Array R) : R :=
  pending D mark n adjoints + settled mark j n adjoints

theorem pending_succ (D : Nat → R) (mark n : Nat) (adjoints : Array R) :
    pending D mark (n + 1) adjoints =
      pending D mark n adjoints + adjoints[n]?.getD 0 * D (mark + n) :=
  sum_range_succ _ n

/-- More adjoint at one node contributes that much more. -/
theorem pending_set {D : Nat → R} {mark n k : Nat} {adjoints : Array R} {x : R} (hk : k < n)
    (hx : adjoints[k]? = some x) (c : R) :
    pending D mark n (adjoints.setIfInBounds k (x + c)) =
      pending D mark n adjoints + c * D (mark + k) := by
  have hsize : k < adjoints.size := (Array.getElem?_eq_some_iff.1 hx).1
  have hterm : ∀ i ∈ range n, (adjoints.setIfInBounds k (x + c))[i]?.getD 0 * D (mark + i) =
      adjoints[i]?.getD 0 * D (mark + i) + if i = k then c * D (mark + k) else 0 := by
    intro i _
    rw [Array.getElem?_setIfInBounds]
    by_cases hik : k = i
    · subst hik
      rw [if_pos rfl, if_pos hsize, if_pos rfl, hx, Option.getD_some, Option.getD_some]
      ring
    · rw [if_neg hik, if_neg (Ne.symm hik), add_zero]
  rw [pending, pending, sum_congr rfl hterm, sum_add_distrib, sum_ite_eq' (range n) k,
    if_pos (mem_range.2 hk)]

/-- The adjoint of `j` becomes settled when its node is the next to be passed. -/
theorem settled_eq_succ {mark j : Nat} (hj : mark ≤ j) (n : Nat) (adjoints : Array R) :
    settled mark j n adjoints =
      settled mark j (n + 1) adjoints + adjoints[n]?.getD 0 * if mark + n = j then 1 else 0 := by
  unfold settled
  by_cases hn : mark + n = j
  · rw [if_pos hn.le, if_neg (by omega), if_pos hn, mul_one, zero_add,
      show j - mark = n by omega]
  · rw [if_neg hn, mul_zero, add_zero]
    simp only [show mark + n ≤ j ↔ mark + (n + 1) ≤ j by omega]

theorem settled_congr {mark j n : Nat} {xs ys : Array R} (h : ∀ i, n ≤ i → xs[i]? = ys[i]?) :
    settled mark j n xs = settled mark j n ys := by
  unfold settled
  split
  · rw [h _ (by omega)]
  · rfl

/-- Passing a node hands its adjoint on to its operands. -/
theorem account_succ {t : Tape R} {mark j : Nat} {D : Nat → R} (hD : t.ChainRule mark j D)
    (hj : mark ≤ j) {n : Nat} {node : Node R} (hnode : t.nodes[mark + n]? = some node)
    (adjoints : Array R) :
    account D mark j (n + 1) adjoints = account D mark j n adjoints +
      adjoints[n]?.getD 0 * (node.operands.map fun o => o.2 * D o.1).sum := by
  rw [account, account, pending_succ, settled_eq_succ hj n, hD.node _ (by omega) _ hnode]
  ring

/-- Spreading an adjoint over operands that come before the node at `mark + n` succeeds, changes no
adjoint from there on, and adds what the operands contribute. -/
theorem spread_spec {mark n : Nat} (a : R) (operands : List (Nat × R)) (adjoints : Array R)
    (hn : n ≤ adjoints.size) (h : ∀ o ∈ operands, o.1 < mark + n) :
    ∃ adjoints', spread mark a operands adjoints = .ok adjoints' ∧
      adjoints'.size = adjoints.size ∧ (∀ i, n ≤ i → adjoints'[i]? = adjoints[i]?) ∧
      ∀ D : Nat → R, (∀ i < mark, D i = 0) → pending D mark n adjoints' =
        pending D mark n adjoints + a * (operands.map fun o => o.2 * D o.1).sum := by
  induction operands generalizing adjoints with
  | nil => exact ⟨adjoints, rfl, rfl, fun _ _ => rfl, fun D _ => by simp⟩
  | cons o operands ih =>
    obtain ⟨i, p⟩ := o
    have hi : i < mark + n := h (i, p) List.mem_cons_self
    have htail : ∀ o ∈ operands, o.1 < mark + n := fun o ho => h o (List.mem_cons_of_mem _ ho)
    by_cases him : i < mark
    · obtain ⟨adjoints', hok, hsize, hfix, hsum⟩ := ih adjoints hn htail
      refine ⟨adjoints', by rw [spread, if_pos him, hok], hsize, hfix, fun D hD => ?_⟩
      rw [hsum D hD, List.map_cons, List.sum_cons, hD i him, mul_zero, zero_add]
    · obtain ⟨x, hx⟩ : ∃ x, adjoints[i - mark]? = some x :=
        ⟨_, Array.getElem?_eq_getElem (by omega)⟩
      obtain ⟨adjoints', hok, hsize, hfix, hsum⟩ := ih
        (adjoints.setIfInBounds (i - mark) (x + a * p))
        (by rw [Array.size_setIfInBounds]; exact hn) htail
      refine ⟨adjoints', ?_, ?_, fun k hk => ?_, fun D hD => ?_⟩
      · rw [spread, if_neg him, hx]
        exact hok
      · rw [hsize, Array.size_setIfInBounds]
      · rw [hfix k hk, Array.getElem?_setIfInBounds_ne (by omega)]
      · rw [hsum D hD, pending_set (by omega) hx, show mark + (i - mark) = i by omega,
          List.map_cons, List.sum_cons]
        ring

/-- Adjoints that are zero but for a one at `i` account for the derivative of the node there. -/
theorem account_single (D : Nat → R) (mark : Nat) {j i size : Nat} (hi : i < size) :
    account D mark j (i + 1) ((Array.replicate size 0).setIfInBounds i 1) = D (mark + i) := by
  have hget (k : Nat) : ((Array.replicate size (0 : R)).setIfInBounds i 1)[k]?.getD 0 =
      if k = i then 1 else 0 := by
    rw [Array.getElem?_setIfInBounds]
    by_cases hik : i = k
    · subst hik
      simp [hi]
    · rw [if_neg hik, if_neg (Ne.symm hik), Array.getElem?_replicate]
      split <;> rfl
  have hpending : pending D mark (i + 1) ((Array.replicate size (0 : R)).setIfInBounds i 1) =
      D (mark + i) := by
    simp only [pending, hget, ite_mul, one_mul, zero_mul]
    rw [sum_ite_eq' (range (i + 1)) i, if_pos (self_mem_range_succ i)]
  have hsettled : settled mark j (i + 1) ((Array.replicate size (0 : R)).setIfInBounds i 1) =
      0 := by
    unfold settled
    split
    · rw [hget, if_neg (by omega)]
    · rfl
  rw [account, hpending, hsettled, add_zero]

end Balance

section Sweep

variable {R : Type} [CommRing R] [BEq R] [LawfulBEq R]

/-- **The sweep succeeds, and leaves at `j` all that the adjoints accounted for before.** -/
theorem sweep_spec {t : Tape R} {mark : Nat} (ho : t.OrderedFrom mark) (n : Nat)
    (adjoints : Array R) (hn : n ≤ adjoints.size) (ht : mark + n ≤ t.size) :
    ∃ adjoints', t.sweep mark n adjoints = .ok adjoints' ∧
      ∀ j D, mark ≤ j → t.ChainRule mark j D →
        adjoints'[j - mark]?.getD 0 = account D mark j n adjoints := by
  induction n generalizing adjoints with
  | zero =>
    refine ⟨adjoints, rfl, fun j D hj _ => ?_⟩
    rw [account, pending, range_zero, sum_empty, zero_add, settled, add_zero, if_pos hj]
  | succ n ih =>
    obtain ⟨own, hown⟩ : ∃ own, adjoints[n]? = some own :=
      ⟨_, Array.getElem?_eq_getElem (by omega)⟩
    obtain ⟨node, hnode⟩ : ∃ node, t.nodes[mark + n]? = some node :=
      ⟨_, Array.getElem?_eq_getElem (by rw [size] at ht; omega)⟩
    rw [sweep, hown, hnode]
    simp only
    by_cases hzero : (own == 0) = true
    · obtain ⟨adjoints', hok, hsum⟩ := ih adjoints (by omega) (by omega)
      refine ⟨adjoints', by rw [if_pos hzero, hok], fun j D hj hD => ?_⟩
      rw [hsum j D hj hD, account_succ hD hj hnode, hown, Option.getD_some, eq_of_beq hzero,
        zero_mul, add_zero]
    · obtain ⟨passed, hspread, hsize, hfix, hpend⟩ := spread_spec own _
        adjoints (by omega) (ho (mark + n) (by omega) _ hnode)
      obtain ⟨adjoints', hok, hsum⟩ := ih passed (by omega) (by omega)
      refine ⟨adjoints', by rw [if_neg hzero, hspread]; exact hok, fun j D hj hD => ?_⟩
      rw [hsum j D hj hD, account_succ hD hj hnode, hown, Option.getD_some, account, account,
        hpend D hD.before, settled_congr hfix]
      ring

/-! ## The gradient -/

/-- The derivative of `out` with respect to `x`, read off a family of functions on the nodes; zero
unless both were recorded at or after the mark. -/
def slope (D : Nat → Nat → R) (mark : Nat) (out x : Dual R) : R :=
  match offset? mark out, offset? mark x with
  | some i, some j => D (mark + j) (mark + i)
  | _, _ => 0

/-- The adjoints of a live result are its derivatives. -/
theorem adjoints_spec {t : Tape R} {mark : Nat} (ho : t.OrderedFrom mark) {out : Dual R}
    (hout : out.Live t) :
    ∃ adjoints, t.adjoints mark out = .ok adjoints ∧
      ∀ j D, t.ChainRule mark (mark + j) D →
        adjoints[j]?.getD 0 = (offset? mark out).elim 0 fun i => D (mark + i) := by
  unfold adjoints
  cases hoff : offset? mark out with
  | none =>
    refine ⟨_, rfl, fun j D _ => ?_⟩
    rw [Array.getElem?_replicate]
    split <;> rfl
  | some i =>
    obtain ⟨h, hh, hindex⟩ := Option.map_eq_some_iff.1 (offset?_eq_some.1 hoff)
    have hlt : mark + i < t.size := hindex ▸ (hout h hh).index_lt
    obtain ⟨adjoints', hok, hsum⟩ := sweep_spec ho (i + 1)
      ((Array.replicate (t.size - mark) 0).setIfInBounds i 1) (by simp; omega) (by omega)
    refine ⟨adjoints', ?_, fun j D hD => ?_⟩
    · simp only [Array.size_replicate]
      rw [if_pos (by omega), hok]
    · rw [Option.elim_some, ← account_single D mark (show i < t.size - mark by omega),
        ← hsum (mark + j) D (by omega) hD, Nat.add_sub_cancel_left]

/-- **The gradient consists of the values of functions that obey the chain rule.** -/
theorem gradient_eq_of_chainRule {t : Tape R} {mark : Nat} (ho : t.OrderedFrom mark)
    {out : Dual R} {wrt : List (Dual R)} (hout : out.Live t) (hwrt : ∀ x ∈ wrt, x.Live t)
    (D : Nat → Nat → R)
    (hD : ∀ x ∈ wrt, ∀ j, x.index? = some (mark + j) → t.ChainRule mark (mark + j) (D (mark + j))) :
    t.gradient mark out wrt = .ok (wrt.map fun x => slope D mark out x) := by
  obtain ⟨adjoints', hok, hvalue⟩ := adjoints_spec ho hout
  have hlive : ∀ x ∈ out :: wrt, x.Live t := by
    intro x hx
    obtain rfl | hx := List.mem_cons.1 hx
    · exact hout
    · exact hwrt x hx
  rw [gradient, if_pos hlive, hok]
  refine congrArg Except.ok (List.map_congr_left fun x hx => ?_)
  unfold slope
  cases hoff : offset? mark x with
  | none => cases offset? mark out <;> rfl
  | some j =>
    rw [Option.bind_some, hvalue j _ (hD x hx j (offset?_eq_some.1 hoff))]
    cases offset? mark out <;> rfl

end Sweep

end LogDensity.Tape
