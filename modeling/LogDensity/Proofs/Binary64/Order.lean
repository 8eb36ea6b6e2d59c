import LogDensity.Scalar.Datum
import Mathlib

/-!
# The order of binary64 numbers

A comparison of two numbers has a result unless one of them is not a number, and it turns round with
its arguments. So of two numbers that are not in the one strict order, the other weak one holds.
-/

namespace LogDensity.Binary64

open Float.Model

/-- Comparing the other way round. -/
theorem compare_swap (a b : UnpackedFloat) : b.compare a = (a.compare b).map Ordering.swap := by
  have hint (i j : Int) : (compare i j).swap = compare j i := Std.OrientedCmp.eq_swap.symm
  have hnat (m n : Nat) : (compare m n).swap = compare n m := Std.OrientedCmp.eq_swap.symm
  rcases a with (_ | _) | _ | (_ | _) | ⟨_ | _, m, e, hm⟩ <;>
    rcases b with (_ | _) | _ | (_ | _) | ⟨_ | _, m', e', hm'⟩ <;>
    first
      | rfl
      | simp only [UnpackedFloat.compare, Option.map_some, Ordering.swap_then, hint, hnat]

/-- A comparison fails on not-a-number only. -/
theorem compare_eq_none {a b : UnpackedFloat} :
    a.compare b = none ↔ a.isNaN = true ∨ b.isNaN = true := by
  rcases a with (_ | _) | _ | (_ | _) | ⟨_ | _, m, e, hm⟩ <;>
    rcases b with (_ | _) | _ | (_ | _) | ⟨_ | _, m', e', hm'⟩ <;>
    simp [UnpackedFloat.compare, UnpackedFloat.isNaN]

variable {x y : Float}

/-- What a comparison says, of which `<` and `≤` are read off. -/
theorem le_iff : x ≤ y ↔ (x.toModel.unpack.compare y.toModel.unpack).any Ordering.isLE = true := by
  have hle : x ≤ y ↔ Float.le x y = true := Iff.rfl
  rw [hle, Float.le, decide_eq_true_iff]
  exact Iff.rfl

theorem lt_iff : x < y ↔ x.toModel.unpack.compare y.toModel.unpack = some .lt := by
  have hlt : x < y ↔ Float.lt x y = true := Iff.rfl
  rw [hlt, Float.lt, decide_eq_true_iff]
  exact beq_iff_eq

/-- Not-a-number is not below anything, and nothing is below it. -/
theorem not_le_of_isNaN (h : x.isNaN = true ∨ y.isNaN = true) : ¬ x ≤ y := by
  rw [le_iff, compare_eq_none.2 h]
  exact Bool.false_ne_true

/-- What is above a number is not at most that number. -/
theorem not_le_of_lt (h : y < x) : ¬ x ≤ y := by
  rw [lt_iff] at h
  rw [le_iff, compare_swap, h]
  exact Bool.false_ne_true

/-- Numbers are totally ordered. -/
theorem le_of_not_lt (hx : x.isNaN = false) (hy : y.isNaN = false) (h : ¬ y < x) : x ≤ y := by
  rw [lt_iff, compare_swap] at h
  rw [le_iff]
  cases hcompare : x.toModel.unpack.compare y.toModel.unpack with
  | none =>
    obtain hnan | hnan := compare_eq_none.1 hcompare
    · exact absurd hnan (Bool.eq_false_iff.1 hx)
    · exact absurd hnan (Bool.eq_false_iff.1 hy)
  | some o =>
    rw [hcompare] at h
    cases o with
    | lt => rfl
    | eq => rfl
    | gt => exact absurd rfl h

end LogDensity.Binary64
