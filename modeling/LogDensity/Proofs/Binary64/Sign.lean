import LogDensity.Scalar.Datum
import Mathlib

/-!
# The sign of binary64 numbers

A binary64 number is unpacked into its sign, mantissa and exponent, and packed again when an
operation is done. Replacing the sign replaces one bit (`pack_withSignOf`), so negation is an
involution (`neg_involutive`), and the absolute value is the number itself or its negation, as the
sign bit says (`abs_eq`).
-/

namespace LogDensity.Binary64

open Float.Model UnpackedFloat

/-! ## Replacing the sign -/

/-- The sign of an unpacked number; not-a-number is positive. -/
def sign : UnpackedFloat → Sign
  | .notANumber => .positive
  | .infinity s => s
  | .zero s => s
  | .finite s .. => s

/-- An unpacked number with another sign. -/
def withSignOf (s : Sign) : UnpackedFloat → UnpackedFloat
  | .notANumber => .notANumber
  | .infinity _ => .infinity s
  | .zero _ => .zero s
  | .finite _ m e hm => .finite s m e hm

theorem neg_eq_withSignOf (u : UnpackedFloat) : u.neg = withSignOf (-sign u) u := by
  cases u <;> rfl

theorem abs_eq_withSignOf (u : UnpackedFloat) : u.abs = withSignOf .positive u := by
  cases u <;> rfl

theorem withSignOf_sign (u : UnpackedFloat) : withSignOf (sign u) u = u := by
  cases u <;> rfl

variable {b : BitVec Format.binary64.numBits}

/-- Another sign is another sign bit. -/
theorem unpack_packComponents (s : Sign) (b : BitVec Format.binary64.numBits) :
    UnpackedFloat.unpack .binary64
        (packComponents .binary64 s (unpackExponent b) (unpackMantissa b)) =
      withSignOf s (UnpackedFloat.unpack .binary64 b) := by
  simp only [UnpackedFloat.unpack, unpackSign_packComponents, unpackExponent_packComponents,
    unpackMantissa_packComponents, Sign.ofBitVec_toBitVec]
  split
  · split <;> rfl
  · split
    · split <;> rfl
    · rfl

/-- The word of a number is not that of not-a-number. -/
theorem isNaNBits_eq_false (hb : (UnpackedFloat.unpack .binary64 b).isNaN = false) :
    isNaNBits b = false := by
  rw [Bool.eq_false_iff]
  intro h
  rw [isNaNBits, decide_eq_true_iff] at h
  simp [UnpackedFloat.unpack, h, UnpackedFloat.isNaN] at hb

theorem sign_unpack (hb : (UnpackedFloat.unpack .binary64 b).isNaN = false) :
    sign (UnpackedFloat.unpack .binary64 b) = Sign.ofBitVec (unpackSign b) := by
  revert hb
  rw [UnpackedFloat.unpack]
  simp only
  split
  · split
    · exact fun _ => rfl
    · intro hb
      cases hb
  · split
    · split <;> exact fun _ => rfl
    · exact fun _ => rfl

/-- Packing a number with another sign keeps the exponent and the mantissa of the word. -/
theorem pack_withSignOf (s : Sign) (hb : (UnpackedFloat.unpack .binary64 b).isNaN = false) :
    UnpackedFloat.pack .binary64 (withSignOf s (UnpackedFloat.unpack .binary64 b)) =
      packComponents .binary64 s (unpackExponent b) (unpackMantissa b) := by
  have hbits : isNaNBits (packComponents .binary64 s (unpackExponent b) (unpackMantissa b)) =
      isNaNBits b := by
    simp only [isNaNBits, unpackExponent_packComponents, unpackMantissa_packComponents]
  rw [← unpack_packComponents, pack_unpack, hbits, isNaNBits_eq_false hb,
    if_neg Bool.false_ne_true]

/-- An unpacked number with another sign can be packed and unpacked. -/
theorem unpack_pack_withSignOf (s : Sign) (hb : (UnpackedFloat.unpack .binary64 b).isNaN = false) :
    UnpackedFloat.unpack .binary64
        (UnpackedFloat.pack .binary64 (withSignOf s (UnpackedFloat.unpack .binary64 b))) =
      withSignOf s (UnpackedFloat.unpack .binary64 b) := by
  rw [pack_withSignOf s hb, unpack_packComponents]

/-! ## Negation and absolute value -/

/-- The word of a number. -/
def word (x : Float) : BitVec Format.binary64.numBits :=
  x.toModel.toBits.toBitVec

theorem eq_of_word_eq {x y : Float} (h : word x = word y) : x = y :=
  Float.toBits_inj.1 (UInt64.toBitVec_inj.1 h)

variable {x y : Float}

/-- All that are not a number are the same. -/
theorem eq_of_isNaN (hx : x.isNaN = true) (hy : y.isNaN = true) : x = y := by
  rw [Float.isNaN_eq_decide_eq_nan, decide_eq_true_iff] at hx hy
  exact hx.trans hy.symm

theorem word_neg (x : Float) :
    word (-x) = UnpackedFloat.pack .binary64 (UnpackedFloat.unpack .binary64 (word x)).neg :=
  rfl

theorem word_abs (x : Float) :
    word x.abs = UnpackedFloat.pack .binary64 (UnpackedFloat.unpack .binary64 (word x)).abs :=
  rfl

theorem isNaN_eq (x : Float) : x.isNaN = (UnpackedFloat.unpack .binary64 (word x)).isNaN :=
  rfl

theorem unpack_of_isNaN (hx : x.isNaN = true) :
    UnpackedFloat.unpack .binary64 (word x) = .notANumber :=
  isNaN_iff.1 hx

/-- What is not a number stays so. -/
theorem isNaN_neg (hx : x.isNaN = true) : (-x).isNaN = true := by
  rw [isNaN_eq, word_neg, unpack_of_isNaN hx]
  rfl

theorem isNaN_abs (hx : x.isNaN = true) : x.abs.isNaN = true := by
  rw [isNaN_eq, word_abs, unpack_of_isNaN hx]
  rfl

theorem word_sub (x y : Float) :
    word (x - y) = UnpackedFloat.pack .binary64 (UnpackedFloat.sub .binary64
      (UnpackedFloat.unpack .binary64 (word x)) (UnpackedFloat.unpack .binary64 (word y))) :=
  rfl

theorem isNaN_sub (h : x.isNaN = true ∨ y.isNaN = true) : (x - y).isNaN = true := by
  have hsub : UnpackedFloat.sub .binary64 (UnpackedFloat.unpack .binary64 (word x))
      (UnpackedFloat.unpack .binary64 (word y)) = .notANumber := by
    obtain hx | hy := h
    · rw [unpack_of_isNaN hx]
      rfl
    · rw [unpack_of_isNaN hy]
      cases UnpackedFloat.unpack .binary64 (word x) <;> rfl
  rw [isNaN_eq, word_sub, hsub]
  rfl

theorem unpack_word_neg (hx : x.isNaN = false) :
    UnpackedFloat.unpack .binary64 (word (-x)) =
      (UnpackedFloat.unpack .binary64 (word x)).neg := by
  rw [isNaN_eq] at hx
  rw [word_neg, neg_eq_withSignOf, unpack_pack_withSignOf _ hx]

/-- Negating twice. -/
theorem neg_involutive (hx : x.isNaN = false) : - -x = x := by
  have hneg (u : UnpackedFloat) : u.neg.neg = u := by
    rcases u with (_ | _) | _ | (_ | _) | ⟨_ | _, _⟩ <;> rfl
  apply eq_of_word_eq
  rw [word_neg, unpack_word_neg hx, hneg]
  exact pack_unpack_of_valid x.toModel.valid

/-- The sign bit of a number. -/
theorem isNegative_iff (hx : x.isNaN = false) :
    isNegative x = true ↔ sign (UnpackedFloat.unpack .binary64 (word x)) = .negative := by
  have hlt : (word x).toNat < 2 ^ 64 := (word x).isLt
  have hfield : (unpackSign (word x)).toNat = (word x).toNat / 2 ^ 63 := by
    simp [unpackSign, BitVec.extractLsb, Nat.shiftRight_eq_div_pow]
    omega
  have hbit : isNegative x = decide (2 ^ 63 ≤ (word x).toNat) := by
    rw [isNegative, hx]
    rfl
  have hsign (v : BitVec 1) : Sign.ofBitVec v = .negative ↔ v.toNat = 1 := by
    obtain rfl | rfl : v = 0#1 ∨ v = 1#1 := by
      revert v
      decide
    · exact iff_of_false Sign.noConfusion (by decide)
    · exact iff_of_true rfl rfl
  rw [isNaN_eq] at hx
  rw [sign_unpack hx, hbit, decide_eq_true_iff, hsign, hfield]
  omega

/-- The absolute value of a number is the number or its negation. -/
theorem abs_eq (hx : x.isNaN = false) : x.abs = if isNegative x then -x else x := by
  apply eq_of_word_eq
  rw [word_abs, abs_eq_withSignOf]
  split
  · rename_i hneg
    rw [word_neg, neg_eq_withSignOf, (isNegative_iff hx).1 hneg]
    rfl
  · rename_i hpos
    have hsign : sign (UnpackedFloat.unpack .binary64 (word x)) = .positive := by
      cases h : sign (UnpackedFloat.unpack .binary64 (word x)) with
      | positive => rfl
      | negative => exact absurd ((isNegative_iff hx).2 h) hpos
    rw [← hsign, withSignOf_sign]
    exact pack_unpack_of_valid x.toModel.valid

end LogDensity.Binary64
