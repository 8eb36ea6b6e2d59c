import LogDensity.Proofs.Tape.ChainRule
import Mathlib.Algebra.BigOperators.Fin
import Mathlib.Algebra.BigOperators.Finprod
import Mathlib.Data.Fintype.BigOperators
import Mathlib.Data.Finite.Sigma
import Mathlib.Data.Finite.Sum

/-!
# Derivatives as sums over paths

`t.Path j i` is the type of paths on the tape from the node at `i` down to the node at `j`, each
step going to one of the operands; an operand that occurs twice can be gone to in two ways. The
derivative of one node with respect to another is the sum over all paths of the product of the
partial derivatives on the way (`pathSum`). Where operands come before their node there are
finitely many paths (`finite_path`), and the sum obeys the chain rule (`chainRule_pathSum`).

* `ScopedTape.Reachable.gradient_eq_sum_over_paths`: on every reachable tape the gradient consists
  of these sums, whole paths included: a sweep back to a mark and past nodes with adjoint zero
  loses none of them.
-/

namespace LogDensity

namespace Tape

section Paths

variable {R : Type}

/-- The paths from a node down to the node at `j`, from operand to operand. -/
inductive Path (t : Tape R) (j : Nat) : Nat → Type
  | here : Path t j j
  | down {i : Nat} (node : Node R) (hnode : t.nodes[i]? = some node)
      (k : Fin node.operands.length) (rest : Path t j node.operands[k].1) : Path t j i

/-- The product of the partial derivatives along a path. -/
def Path.weight [Monoid R] {t : Tape R} {j i : Nat} : t.Path j i → R
  | here => 1
  | down node _ k rest => node.operands[k].2 * rest.weight

/-- A path is continued to an operand of the node where it ends. -/
def Path.extend {t : Tape R} {i j : Nat} {node : Node R} (hnode : t.nodes[i]? = some node)
    (k : Fin node.operands.length) : t.Path i j → t.Path node.operands[k].1 j
  | here => down node hnode k here
  | down above habove l rest => down above habove l (rest.extend hnode k)

/-- A path from a node is empty, or goes to one of the operands first. -/
def Path.equiv {t : Tape R} {i : Nat} (j : Nat) {node : Node R}
    (hnode : t.nodes[i]? = some node) :
    t.Path j i ≃ PLift (i = j) ⊕ (k : Fin node.operands.length) × t.Path j node.operands[k].1 where
  toFun
    | .here => .inl ⟨rfl⟩
    | .down _ hnode' k rest => .inr (Option.some.inj (hnode'.symm.trans hnode) ▸ ⟨k, rest⟩)
  invFun
    | .inl ⟨h⟩ => h ▸ .here
    | .inr ⟨k, rest⟩ => .down node hnode k rest
  left_inv p := by
    cases p with
    | here => rfl
    | down node' hnode' k rest =>
      obtain rfl : node' = node := Option.some.inj (hnode'.symm.trans hnode)
      rfl
  right_inv
    | .inl ⟨h⟩ => by subst h; rfl
    | .inr _ => rfl

variable {t : Tape R} (ho : t.OrderedFrom 0)

include ho

/-- Paths lead down. -/
theorem Path.le {i j : Nat} (p : t.Path j i) : j ≤ i := by
  induction p with
  | here => exact le_rfl
  | down node hnode k rest ih =>
    exact ih.trans (ho _ (Nat.zero_le _) _ hnode _ (List.getElem_mem k.isLt)).le

theorem finite_path (j i : Nat) : Finite (t.Path j i) := by
  induction i using Nat.strongRecOn with
  | ind i ih =>
    cases hnode : t.nodes[i]? with
    | none =>
      -- where there is no node, the empty path is the only one
      refine @Finite.of_subsingleton _ ⟨fun p q => ?_⟩
      cases p with
      | here =>
        cases q with
        | here => rfl
        | down _ hq => cases hnode.symm.trans hq
      | down _ hp => cases hnode.symm.trans hp
    | some node =>
      have (k : Fin node.operands.length) : Finite (t.Path j node.operands[k].1) :=
        ih _ (ho i (Nat.zero_le _) _ hnode _ (List.getElem_mem k.isLt))
      exact Finite.of_equiv _ (Path.equiv j hnode).symm

end Paths

section Sums

variable {R : Type} [CommRing R]

/-- The sum over all paths from the node at `i` down to the node at `j`. -/
noncomputable def pathSum (t : Tape R) (i j : Nat) : R :=
  ∑ᶠ p : t.Path j i, p.weight

/-- The derivative of `out` with respect to `x` in a scope with a mark: the sum over all paths from
one to the other, and zero if one of them is a constant or was recorded before the mark. -/
noncomputable def derivative (t : Tape R) (mark : Nat) (out x : Dual R) : R :=
  match out.index?, x.index? with
  | some i, some j => if mark ≤ i ∧ mark ≤ j then t.pathSum i j else 0
  | _, _ => 0

variable {t : Tape R} (ho : t.OrderedFrom 0)

include ho

theorem pathSum_of_lt {i j : Nat} (h : i < j) : t.pathSum i j = 0 := by
  have : IsEmpty (t.Path j i) := ⟨fun p => absurd (p.le ho) (by omega)⟩
  exact finsum_of_isEmpty _

/-- The paths from a node are the empty one and those that go on from its operands. -/
theorem pathSum_node {i : Nat} (j : Nat) {node : Node R} (hnode : t.nodes[i]? = some node) :
    t.pathSum i j =
      (if i = j then 1 else 0) + (node.operands.map fun o => o.2 * t.pathSum o.1 j).sum := by
  have (i : Nat) : Finite (t.Path j i) := finite_path ho j i
  let _ (i : Nat) : Fintype (t.Path j i) := Fintype.ofFinite _
  simp only [pathSum, finsum_eq_sum_of_fintype]
  rw [← (Path.equiv j hnode).symm.sum_comp, Fintype.sum_sum_type, Fintype.sum_sigma,
    ← Fin.sum_univ_fun_getElem]
  congr 1
  · by_cases hij : i = j
    · subst hij
      simp [Path.equiv, Path.weight]
    · simp [hij]
  · exact Finset.sum_congr rfl fun k _ => (Finset.mul_sum ..).symm

/-- **Sums over paths obey the chain rule.** -/
theorem chainRule_pathSum {mark j : Nat} (hj : mark ≤ j) :
    t.ChainRule mark j fun i => t.pathSum i j where
  before _ hi := pathSum_of_lt ho (by omega)
  node _ _ _ hnode := pathSum_node ho j hnode

end Sums

theorem slope_pathSum {R : Type} [CommRing R] (t : Tape R) (mark : Nat) (out x : Dual R) :
    slope (fun j i => t.pathSum i j) mark out x = t.derivative mark out x := by
  unfold slope derivative offset?
  cases out.index? with
  | none => rfl
  | some i =>
    cases x.index? with
    | none => split <;> simp_all
    | some j =>
      by_cases hi : mark ≤ i
      · by_cases hj : mark ≤ j
        · simp [hi, hj, Nat.not_lt.2 hi, Nat.not_lt.2 hj]
        · simp [hj, Nat.lt_of_not_le hj, Nat.not_lt.2 hi]
      · simp [hi, Nat.lt_of_not_le hi]

end Tape

namespace ScopedTape

variable {R : Type} [CommRing R] [BEq R] [LawfulBEq R]

/-- **Reverse sweeps sum over paths.** On every reachable tape, for any mark (that of an open scope,
say), any live or constant result, and any list of live or constant numbers, the gradient has one
entry per number: the sum over all paths on the tape from the result to the number. -/
theorem Reachable.gradient_eq_sum_over_paths {s : ScopedTape R} (hs : s.Reachable) (mark : Nat)
    {out : Dual R} {wrt : List (Dual R)} (hout : out.Live s.tape)
    (hwrt : ∀ x ∈ wrt, x.Live s.tape) :
    (∀ j i, Finite (s.tape.Path j i)) ∧
      s.tape.gradient mark out wrt = .ok (wrt.map fun x => s.tape.derivative mark out x) := by
  refine ⟨Tape.finite_path hs.ordered, ?_⟩
  rw [Tape.gradient_eq_of_chainRule (fun i _ => hs.ordered i (Nat.zero_le i)) hout hwrt
    (fun j i => s.tape.pathSum i j) fun _ _ _ _ => Tape.chainRule_pathSum hs.ordered (by omega)]
  simp only [Tape.slope_pathSum]

/-- The product of two variables and the square of the first, added up in a scope in which another
one was opened, used and closed. -/
def productAndSquare : ScopedTape Int :=
  run {} [.openScope, .record [], .record [], .openScope, .record [(⟨0, 0⟩, 5)], .closeScope 0,
    .record [(⟨0, 0⟩, 3), (⟨1, 1⟩, 2)], .record [(⟨0, 0⟩, 2), (⟨0, 0⟩, 2)],
    .record [(⟨2, 3⟩, 1), (⟨3, 4⟩, 1)]]

theorem gradient_productAndSquare :
    let x : Dual Int := ⟨2, some ⟨0, 0⟩⟩
    let y : Dual Int := ⟨3, some ⟨1, 1⟩⟩
    let out : Dual Int := ⟨10, some ⟨4, 5⟩⟩
    let t := productAndSquare.tape
    productAndSquare.Reachable ∧ out.Live t ∧ (∀ v ∈ [x, y, x, .constant 1], v.Live t) ∧
      t.gradient 0 out [x, y, x, .constant 1] = .ok [7, 2, 7, 0] ∧
      t.gradient 0 out [x, y, x, .constant 1] =
        .ok ([x, y, x, .constant 1].map fun v => t.derivative 0 out v) := by
  intro x y out t
  have hs : productAndSquare.Reachable := ⟨_, rfl⟩
  have hout : out.Live t := by decide
  have hwrt : ∀ v ∈ [x, y, x, .constant 1], v.Live t := by decide
  exact ⟨hs, hout, hwrt, by decide, (hs.gradient_eq_sum_over_paths 0 hout hwrt).2⟩

end ScopedTape

end LogDensity
