import LogDensity.Context.OfJson
import Mathlib.Algebra.BigOperators.Group.List.Basic
import Mathlib.Data.List.Forall2
import Mathlib.Tactic.Linarith
import Mathlib.Tactic.Ring

/-!
# From row-major to column-major order

A multi-index of an array with given dimensions has one position in row-major order (`rowOffset`)
and one in column-major order (`columnOffset 1`), and either position determines it. Stepping from
one multi-index to the next raises the row-major position by one, and a step that runs over comes
back to zero from the last position (`advance_spec`). So a walk over values in row-major order meets
every multi-index once, and puts the value of each into a cell of its own (`place_spec`).

* `columnMajor_spec`: rearranging as many values as the dimensions multiply to succeeds, and moves
  the value of every multi-index from its row-major to its column-major position.
* `columnOffset_one`: the column-major position of `[i₀, i₁, i₂, …]` is
  `i₀ + i₁ * d₀ + i₂ * d₀ * d₁ + …`.
-/

namespace LogDensity

/-- A multi-index is within the dimensions. -/
def InRange (index dims : List Nat) : Prop :=
  List.Forall₂ (· < ·) index dims

/-- The row-major position of a multi-index, the last index running fastest. -/
def rowOffset : List Nat → List Nat → Nat
  | _ :: dims, i :: index => i * dims.prod + rowOffset dims index
  | _, _ => 0

/-- The column-major position of a multi-index, each index weighted by the product of the dimensions
before its own. -/
def columnPosition (dims index : List Nat) : Nat :=
  (List.zipWith (· * ·) index (dims.scanl (· * ·) 1)).sum

/-! ## Positions -/

theorem rowOffset_lt {index dims : List Nat} (h : InRange index dims) :
    rowOffset dims index < dims.prod := by
  induction h with
  | nil => simp [rowOffset]
  | @cons i d index dims hi _ ih =>
    rw [rowOffset, List.prod_cons]
    nlinarith

theorem rowOffset_inj {index index' dims : List Nat} (h : InRange index dims)
    (h' : InRange index' dims) (heq : rowOffset dims index = rowOffset dims index') :
    index = index' := by
  induction h generalizing index' with
  | nil => cases h'; rfl
  | @cons i d index dims hi h ih =>
    cases h' with
    | @cons i' _ index' _ hi' h' =>
      rw [rowOffset, rowOffset] at heq
      have hlt := rowOffset_lt h
      have hlt' := rowOffset_lt h'
      have hhead : i = i' := by
        have hdiv := congrArg (· / dims.prod) heq
        simpa [Nat.mul_comm _ dims.prod, Nat.mul_add_div (Nat.zero_lt_of_lt hlt),
          Nat.div_eq_of_lt hlt, Nat.div_eq_of_lt hlt'] using hdiv
      subst hhead
      rw [ih h' (by omega)]

theorem columnOffset_eq_mul (stride : Nat) (dims index : List Nat) :
    columnOffset stride dims index = stride * columnOffset 1 dims index := by
  induction dims generalizing stride index with
  | nil => simp [columnOffset]
  | cons d dims ih =>
    cases index with
    | nil => simp [columnOffset]
    | cons i index =>
      rw [columnOffset, columnOffset, ih, ih (1 * d)]
      ring

/-- The position of a multi-index by that of its tail. -/
theorem columnOffset_cons (d i : Nat) (dims index : List Nat) :
    columnOffset 1 (d :: dims) (i :: index) = i + d * columnOffset 1 dims index := by
  rw [columnOffset, columnOffset_eq_mul (1 * d)]
  ring

theorem columnOffset_lt {index dims : List Nat} (h : InRange index dims) :
    columnOffset 1 dims index < dims.prod := by
  induction h with
  | nil => simp [columnOffset]
  | @cons i d index dims hi _ ih =>
    rw [columnOffset_cons, List.prod_cons]
    nlinarith

theorem columnOffset_inj {index index' dims : List Nat} (h : InRange index dims)
    (h' : InRange index' dims) (heq : columnOffset 1 dims index = columnOffset 1 dims index') :
    index = index' := by
  induction h generalizing index' with
  | nil => cases h'; rfl
  | @cons i d index dims hi h ih =>
    cases h' with
    | @cons i' _ index' _ hi' h' =>
      rw [columnOffset_cons, columnOffset_cons] at heq
      have hhead : i = i' := by
        have hmod := congrArg (· % d) heq
        simpa [Nat.mod_eq_of_lt hi, Nat.mod_eq_of_lt hi'] using hmod
      subst hhead
      have htail := Nat.eq_of_mul_eq_mul_left (Nat.zero_lt_of_lt hi) (Nat.add_left_cancel heq)
      rw [ih h' htail]

theorem columnOffset_eq_sum {index dims : List Nat} (h : InRange index dims) (stride : Nat) :
    columnOffset stride dims index =
      (List.zipWith (· * ·) index (dims.scanl (· * ·) stride)).sum := by
  induction h generalizing stride with
  | nil => rfl
  | cons _ _ ih => simp [columnOffset, ih]

/-- **The column-major position in closed form.** -/
theorem columnOffset_one {index dims : List Nat} (h : InRange index dims) :
    columnOffset 1 dims index = columnPosition dims index :=
  columnOffset_eq_sum h 1

/-! ## The walk -/

/-- A step leads from a multi-index to the one whose row-major position is one higher, or runs over
from the last one to the first. -/
theorem advance_spec {index dims : List Nat} (h : InRange index dims) :
    InRange (advance dims index).1 dims ∧
      rowOffset dims index + 1 = rowOffset dims (advance dims index).1 +
        if (advance dims index).2 then dims.prod else 0 := by
  induction h with
  | nil => exact ⟨.nil, rfl⟩
  | @cons i d index dims hi h ih =>
    rcases hadv : advance dims index with ⟨next, carry⟩
    rw [hadv] at ih
    obtain ⟨hnext, hstep⟩ := ih
    cases carry with
    | false =>
      simp only [advance, hadv, rowOffset]
      refine ⟨.cons hi hnext, ?_⟩
      simp at hstep ⊢
      omega
    | true =>
      simp only [advance, hadv]
      simp only [if_true] at hstep
      by_cases hlast : i + 1 < d
      · rw [if_pos hlast]
        refine ⟨.cons hlast hnext, ?_⟩
        simp only [rowOffset]
        simp
        nlinarith
      · rw [if_neg hlast]
        obtain rfl : d = i + 1 := by omega
        refine ⟨.cons (Nat.succ_pos i) hnext, ?_⟩
        simp only [rowOffset, List.prod_cons, if_true]
        nlinarith

/-- **The walk.** From a multi-index on, as many values as there are multi-indices left at most are
put into cells without leaving the array; the multi-indices that are met have their values then, and
the cells of the others are as before. -/
theorem place_spec {dims index : List Nat} (h : InRange index dims) (xs : List Float)
    (hxs : rowOffset dims index + xs.length ≤ dims.prod) {cells : Array Float}
    (hcells : cells.size = dims.prod) :
    ∃ cells', place dims index xs cells = .ok cells' ∧ cells'.size = dims.prod ∧
      ∀ m, InRange m dims → cells'[columnOffset 1 dims m]? =
        if rowOffset dims index ≤ rowOffset dims m ∧
          rowOffset dims m < rowOffset dims index + xs.length
        then xs[rowOffset dims m - rowOffset dims index]?
        else cells[columnOffset 1 dims m]? := by
  induction xs generalizing index cells with
  | nil =>
    refine ⟨cells, by rw [place], hcells, fun m _ => ?_⟩
    rw [if_neg (by simp)]
  | cons x xs ih =>
    have hlt : columnOffset 1 dims index < cells.size := hcells ▸ columnOffset_lt h
    obtain ⟨hnext, hstep⟩ := advance_spec h
    rw [List.length_cons] at hxs ⊢
    -- only the step behind the last multi-index runs over, and then there is no value left
    have hrow : rowOffset dims (advance dims index).1 + xs.length ≤ dims.prod ∧
        (xs.length = 0 ∨ rowOffset dims (advance dims index).1 = rowOffset dims index + 1) := by
      split at hstep <;> omega
    obtain ⟨hbound, hrow⟩ := hrow
    have hset : (cells.setIfInBounds (columnOffset 1 dims index) x).size = dims.prod := by
      simpa using hcells
    obtain ⟨cells', hok, hsize, hcell⟩ := ih hnext hbound hset
    refine ⟨cells', by rw [place, if_pos hlt, hok], hsize, fun m hm => ?_⟩
    rw [hcell m hm]
    by_cases heq : rowOffset dims m = rowOffset dims index
    · obtain rfl := rowOffset_inj hm h heq
      rw [if_neg (by omega), if_pos (by omega), Nat.sub_self, List.getElem?_cons_zero,
        Array.getElem?_setIfInBounds_self_of_lt hlt]
    · have hne : columnOffset 1 dims index ≠ columnOffset 1 dims m :=
        fun hcol => heq (congrArg (rowOffset dims) (columnOffset_inj hm h hcol.symm))
      rw [Array.getElem?_setIfInBounds_ne hne]
      by_cases hmet : rowOffset dims index ≤ rowOffset dims m ∧
          rowOffset dims m < rowOffset dims index + (xs.length + 1)
      · rw [if_pos hmet, if_pos (by omega), ← List.getElem?_cons_succ (a := x)]
        congr 1
        omega
      · rw [if_neg hmet, if_neg (by omega)]

/-! ## The rearrangement -/

theorem inRange_zero {dims : List Nat} (h : 0 < dims.prod) :
    InRange (dims.map fun _ => 0) dims := by
  induction dims with
  | nil => exact .nil
  | cons d dims ih =>
    rw [List.prod_cons] at h
    exact .cons (Nat.pos_of_mul_pos_right h) (ih (Nat.pos_of_mul_pos_left h))

theorem rowOffset_zero (dims : List Nat) : rowOffset dims (dims.map fun _ => 0) = 0 := by
  induction dims with
  | nil => rfl
  | cons d dims ih => simpa [rowOffset] using ih

/-- **Rearranging moves the value of every multi-index to its column-major position.** -/
theorem columnMajor_spec {dims : List Nat} {xs : List Float} (hxs : xs.length = dims.prod) :
    ∃ ys, columnMajor dims xs = .ok ys ∧ ys.length = xs.length ∧
      ∀ m, InRange m dims → ys[columnOffset 1 dims m]? = xs[rowOffset dims m]? := by
  unfold columnMajor
  split
  · next hrank =>
    -- up to one dimension the two orders are the same
    refine ⟨xs, rfl, rfl, fun m hm => ?_⟩
    match dims, m, hm, hrank with
    | [], [], _, _ => rfl
    | [d], [i], _, _ => simp [columnOffset, rowOffset]
  · rcases Nat.eq_zero_or_pos dims.prod with hzero | hpos
    · obtain rfl := List.eq_nil_of_length_eq_zero (hxs.trans hzero)
      refine ⟨[], by rw [place]; rfl, rfl, fun m hm => ?_⟩
      exact absurd (rowOffset_lt hm) (by omega)
    · have hzeros : (Array.replicate xs.length (0 : Float)).size = dims.prod := by simp [hxs]
      obtain ⟨cells, hok, hsize, hcell⟩ := place_spec (inRange_zero hpos) xs
        (by rw [rowOffset_zero]; omega) hzeros
      refine ⟨cells.toList, by rw [hok]; rfl, by simp [hsize, hxs], fun m hm => ?_⟩
      have hm' := hcell m hm
      rw [rowOffset_zero, if_pos ⟨Nat.zero_le _, by have := rowOffset_lt hm; omega⟩] at hm'
      simpa using hm'

end LogDensity
