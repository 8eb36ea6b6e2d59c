import LogDensity.Binary64.Basic
import LogDensity.Proofs.Binary64.Value
import Mathlib

/-!
# Functions with exact results

The parts that the bits of a finite number show are those that it is unpacked into
(`value_eq_parts`), and a number built from parts has their value (`value_ofParts`). So truncation
and the remainder, which compute with parts, are exact: they are the whole part of a rational
(`value_trunc`) and what is left of one when the whole multiple of another is taken away
(`value_remainder`).
-/

namespace LogDensity.Binary64

open Float.Model UnpackedFloat

/-! ## Reading the parts -/

/-- The sign that a sign bit stands for. -/
def signOf (negative : Bool) : Sign :=
  if negative then .negative else .positive

variable {b : BitVec Format.binary64.numBits}

theorem toNat_unpackExponent (b : BitVec Format.binary64.numBits) :
    (unpackExponent b).toNat = b.toNat / 2 ^ 52 % 2 ^ 11 := by
  simp [unpackExponent, BitVec.extractLsb, Nat.shiftRight_eq_div_pow]

theorem toNat_unpackMantissa (b : BitVec Format.binary64.numBits) :
    (unpackMantissa b).toNat = b.toNat % 2 ^ 52 := by
  simp [unpackMantissa, BitVec.extractLsb]

theorem ofBitVec_unpackSign (b : BitVec Format.binary64.numBits) :
    Sign.ofBitVec (unpackSign b) = signOf (2 ^ 63 ≤ b.toNat) := by
  have hlt : b.toNat < 2 ^ 64 := b.isLt
  have hbit : (unpackSign b).toNat = b.toNat / 2 ^ 63 := by
    simp [unpackSign, BitVec.extractLsb, Nat.shiftRight_eq_div_pow]
    omega
  have hzero : unpackSign b = 0#1 ↔ ¬ 2 ^ 63 ≤ b.toNat := by
    rw [← BitVec.toNat_inj, hbit, BitVec.toNat_ofNat]
    omega
  rw [Sign.ofBitVec, signOf]
  by_cases h : 2 ^ 63 ≤ b.toNat
  · rw [if_neg fun h' => hzero.1 h' h, if_pos (decide_eq_true h)]
  · rw [if_pos (hzero.2 h), if_neg (by simpa using h)]

variable {x y : Float}

/-- A finite number is unpacked into its parts. -/
theorem unpack_eq_parts (hx : x.isFinite = true) :
    UnpackedFloat.unpack .binary64 (word x) =
      unpacked (signOf (parts x).negative) (parts x).mantissa (parts x).exponent := by
  have hfield : (unpackExponent (word x)).toNat = exponentField x := toNat_unpackExponent _
  have hfraction : (unpackMantissa (word x)).toNat = fractionField x := toNat_unpackMantissa _
  rw [unpack_eq_ofFields (unpackExponent_ne hx), ofBitVec_unpackSign, hfield, hfraction, ofFields,
    parts]
  by_cases hzero : exponentField x = 0
  · simp only [if_pos hzero]
    rfl
  · simp only [if_neg hzero]
    rfl

theorem parts_canonical (hx : x.isFinite = true) :
    Canonical (parts x).mantissa (parts x).exponent ∧ (parts x).exponent ≤ 971 := by
  have hfield : exponentField x < 2 ^ 11 := Nat.mod_lt _ (by norm_num)
  have hfraction : fractionField x < 2 ^ 52 := Nat.mod_lt _ (by norm_num)
  have hfull : exponentField x ≠ 2047 := by
    rw [← show (unpackExponent (word x)).toNat = exponentField x from toNat_unpackExponent _]
    exact unpackExponent_ne hx
  rw [parts]
  by_cases hzero : exponentField x = 0
  · simp only [if_pos hzero]
    exact ⟨⟨by omega, le_rfl, .inr rfl⟩, by norm_num⟩
  · simp only [if_neg hzero, Nat.pow_eq]
    exact ⟨⟨by omega, by omega, .inl (by omega)⟩, by omega⟩

theorem value_eq_parts (hx : x.isFinite = true) :
    value x = (signOf (parts x).negative).apply ((parts x).mantissa : ℤ) *
      (2 : ℚ) ^ (parts x).exponent := by
  rw [value, unpack_eq_parts hx, rat_unpacked]

/-! ## Building a number -/

/-- A word that is made of fields is unpacked into them. -/
theorem unpack_of_toNat {field fraction : ℕ} {negative : Bool} (hfield : field < 2047)
    (hfraction : fraction < 2 ^ 52)
    (hb : b.toNat = (if negative then 2 ^ 63 else 0) + field * 2 ^ 52 + fraction) :
    UnpackedFloat.unpack .binary64 b = ofFields (signOf negative) field fraction := by
  have hexponent : (unpackExponent b).toNat = field := by
    rw [toNat_unpackExponent, hb]
    split <;> omega
  have hmantissa : (unpackMantissa b).toNat = fraction := by
    rw [toNat_unpackMantissa, hb]
    split <;> omega
  have hsign : decide (2 ^ 63 ≤ b.toNat) = negative := by
    rw [hb]
    cases negative <;> simp <;> omega
  rw [unpack_eq_ofFields (by omega), ofBitVec_unpackSign, hexponent, hmantissa, hsign]

/-- The number that a word stands for, unless it is not a number, has that word. -/
theorem unpack_word_ofBits {w : UInt64}
    (h : (UnpackedFloat.unpack .binary64 w.toBitVec).isNaN = false) :
    UnpackedFloat.unpack .binary64 (word (Float.ofBits w)) =
      UnpackedFloat.unpack .binary64 w.toBitVec := by
  have hword : word (Float.ofBits w) =
      UnpackedFloat.pack .binary64 (UnpackedFloat.unpack .binary64 w.toBitVec) :=
    rfl
  rw [hword, pack_unpack, isNaNBits_eq_false h, if_neg Bool.false_ne_true]

variable {negative : Bool} {m : ℕ} {e : ℤ}

theorem isNaN_unpacked (s : Sign) (m : ℕ) (e : ℤ) : (unpacked s m e).isNaN = false := by
  rw [unpacked]
  split <;> rfl

/-- The number with given fields. -/
theorem unpack_ofBits {field fraction : ℕ} (hfield : field < 2047) (hfraction : fraction < 2 ^ 52) :
    UnpackedFloat.unpack .binary64 (word (Float.ofBits
        (UInt64.ofNat ((if negative then 2 ^ 63 else 0) + field * 2 ^ 52 + fraction)))) =
      ofFields (signOf negative) field fraction := by
  have hunpack : UnpackedFloat.unpack .binary64
      (UInt64.ofNat ((if negative then 2 ^ 63 else 0) + field * 2 ^ 52 + fraction)).toBitVec =
        ofFields (signOf negative) field fraction := by
    apply unpack_of_toNat hfield hfraction
    rw [UInt64.toNat_toBitVec]
    apply UInt64.toNat_ofNat_of_lt'
    rw [UInt64.size]
    split <;> omega
  obtain ⟨m, e, -, -, heq⟩ := exists_canonical (signOf negative) hfield hfraction
  rw [unpack_word_ofBits, hunpack]
  rw [hunpack, heq]
  exact isNaN_unpacked _ m e

/-- A mantissa that fits is moved up until it has 53 digits or the exponent is the lowest one. -/
theorem exists_shift (hpos : 0 < m) (hm : m < 2 ^ 53) (hlow : -1074 ≤ e) :
    ∃ k : ℕ, max ((m.log2 : ℤ) - 52) (-1074 - e) = -k ∧ Canonical (m * 2 ^ k) (e - k) := by
  have hlog : m.log2 < 53 := (Nat.log2_lt hpos.ne').2 hm
  obtain ⟨k, hk⟩ : ∃ k : ℕ, max ((m.log2 : ℤ) - 52) (-1074 - e) = -k :=
    ⟨(-max ((m.log2 : ℤ) - 52) (-1074 - e)).toNat, by omega⟩
  refine ⟨k, hk, ?_, by omega, ?_⟩
  · calc m * 2 ^ k < 2 ^ (m.log2 + 1) * 2 ^ k :=
          mul_lt_mul_of_pos_right Nat.lt_log2_self (by positivity)
      _ = 2 ^ (m.log2 + 1 + k) := (pow_add 2 _ k).symm
      _ ≤ 2 ^ 53 := Nat.pow_le_pow_right (by norm_num) (by omega)
  · by_cases hlowest : e - k = -1074
    · exact .inr hlowest
    · left
      calc 2 ^ 52 = 2 ^ m.log2 * 2 ^ k := by
            rw [← pow_add]
            congr 1
            omega
        _ ≤ m * 2 ^ k := Nat.mul_le_mul_right _ (Nat.log2_self_le hpos.ne')

/-- A number built from parts, when they fit. -/
theorem exists_ofParts (negative : Bool) (hm : m < 2 ^ 53) (hlow : -1074 ≤ e) (hhigh : e ≤ 971) :
    ∃ m' e', UnpackedFloat.unpack .binary64 (word (ofParts negative m e)) =
        unpacked (signOf negative) m' e' ∧ (m' : ℚ) * (2 : ℚ) ^ e' = m * (2 : ℚ) ^ e := by
  obtain rfl | hpos := m.eq_zero_or_pos
  · have hzero : ofParts negative 0 e = Float.ofBits
        (UInt64.ofNat ((if negative then 2 ^ 63 else 0) + 0 * 2 ^ 52 + 0)) := by
      simp only [ofParts, if_true, Nat.pow_eq, zero_mul, add_zero]
    refine ⟨0, -1074, ?_, by simp⟩
    rw [hzero, unpack_ofBits (by norm_num) (by norm_num), ofFields, if_pos rfl]
  obtain ⟨k, hk, hcanonical⟩ := exists_shift hpos hm hlow
  refine ⟨m * 2 ^ k, e - k, ?_, ?_⟩
  · have hshift : (if 0 ≤ -(k : ℤ) then m >>> (-(k : ℤ)).toNat else m <<< (- -(k : ℤ)).toNat) =
        m * 2 ^ k := by
      split
      · obtain rfl : k = 0 := by omega
        simp
      · rw [neg_neg, Int.toNat_natCast, Nat.shiftLeft_eq]
    obtain ⟨hlt, hlowest, hnormal⟩ := hcanonical
    rw [ofParts]
    simp only [if_neg hpos.ne', hk, hshift, Nat.pow_eq]
    rw [unpack_ofBits (by split <;> omega) (Nat.mod_lt _ (by norm_num)), ofFields]
    by_cases hbig : m * 2 ^ k < 2 ^ 52
    · rw [if_pos hbig, if_pos rfl, Nat.mod_eq_of_lt hbig]
      congr 1
      omega
    · rw [if_neg hbig, if_neg (by omega)]
      congr 1 <;> omega
  · exact natCast_mul_pow_mul_zpow (sub_add_cancel e k)

theorem isFinite_ofParts (negative : Bool) (hm : m < 2 ^ 53) (hlow : -1074 ≤ e) (hhigh : e ≤ 971) :
    (ofParts negative m e).isFinite = true := by
  obtain ⟨m', e', heq, -⟩ := exists_ofParts negative hm hlow hhigh
  rw [isFinite_eq, heq]
  exact isFinite_unpacked _ m' e'

theorem value_ofParts (negative : Bool) (hm : m < 2 ^ 53) (hlow : -1074 ≤ e) (hhigh : e ≤ 971) :
    value (ofParts negative m e) = (signOf negative).apply (m : ℤ) * (2 : ℚ) ^ e := by
  obtain ⟨m', e', heq, hmagnitude⟩ := exists_ofParts negative hm hlow hhigh
  rw [value, heq, rat_unpacked, apply_eq, apply_eq, mul_assoc, mul_assoc, hmagnitude]

/-! ## The whole part -/

/-- The whole part of a rational: what it is rounded to toward zero. -/
def wholePart (x : ℚ) : ℤ :=
  if x < 0 then ⌈x⌉ else ⌊x⌋

theorem wholePart_of_nonneg {z : ℚ} (h : 0 ≤ z) : wholePart z = ⌊z⌋ :=
  if_neg (not_lt.2 h)

theorem wholePart_neg (z : ℚ) : wholePart (-z) = -wholePart z := by
  obtain h | rfl | h := lt_trichotomy z 0
  · rw [wholePart, wholePart, if_neg (by linarith), if_pos h, Int.floor_neg]
  · rw [neg_zero, wholePart_of_nonneg le_rfl, Int.floor_zero, neg_zero]
  · rw [wholePart, wholePart, if_pos (by linarith), if_neg (by linarith), Int.ceil_neg]

theorem wholePart_apply (s : Sign) (z : ℚ) :
    wholePart (s.apply 1 * z) = s.apply 1 * wholePart z := by
  cases s with
  | positive => simp [Sign.apply]
  | negative =>
    simp only [Sign.apply, Int.cast_neg, Int.cast_one, neg_mul, one_mul]
    exact wholePart_neg z

theorem wholePart_intCast (n : ℤ) : wholePart n = n := by
  rw [wholePart, Int.ceil_intCast, Int.floor_intCast, ite_self]

theorem wholePart_natCast_div (a b : ℕ) : wholePart ((a : ℚ) / b) = (a / b : ℕ) := by
  rw [wholePart_of_nonneg (by positivity)]
  exact Rat.floor_natCast_div_natCast a b

/-- **Truncation is exact.** -/
theorem value_trunc (hx : x.isFinite = true) :
    (trunc x).isFinite = true ∧ value (trunc x) = wholePart (value x) := by
  obtain ⟨⟨hm, hlow, -⟩, hhigh⟩ := parts_canonical hx
  have htrunc : trunc x = if 0 ≤ (parts x).exponent then x
      else ofParts (parts x).negative ((parts x).mantissa / (parts x).den) 0 := by
    rw [trunc, roundWith, isNaN_of_isFinite hx, isInf_of_isFinite hx, Bool.or_false,
      if_neg Bool.false_ne_true]
  rw [htrunc, value_eq_parts hx, apply_eq, mul_assoc]
  split
  · rename_i hexponent
    have hint : ((parts x).mantissa : ℚ) * (2 : ℚ) ^ (parts x).exponent =
        ((parts x).mantissa * 2 ^ (parts x).exponent.toNat : ℤ) := by
      push_cast
      rw [← zpow_natCast, Int.toNat_of_nonneg hexponent]
    refine ⟨hx, ?_⟩
    rw [value_eq_parts hx, apply_eq, mul_assoc, wholePart_apply, hint, wholePart_intCast]
    push_cast
    rfl
  · rename_i hexponent
    have hden : ((parts x).mantissa : ℚ) * (2 : ℚ) ^ (parts x).exponent =
        (parts x).mantissa / (parts x).den := by
      rw [Parts.den, Nat.pow_eq, div_eq_mul_inv]
      push_cast
      rw [← zpow_natCast, Int.toNat_of_nonneg (by omega), ← zpow_neg, neg_neg]
    have hlt : (parts x).mantissa / (parts x).den < 2 ^ 53 :=
      lt_of_le_of_lt (Nat.div_le_self _ _) hm
    refine ⟨isFinite_ofParts _ hlt (by norm_num) (by norm_num), ?_⟩
    rw [value_ofParts _ hlt (by norm_num) (by norm_num), apply_eq, zpow_zero, mul_one, hden,
      wholePart_apply, wholePart_natCast_div]
    push_cast
    rfl

/-! ## The remainder -/

theorem isFinite_zero : (0 : Float).isFinite = true := by
  decide +kernel

theorem value_zero : value 0 = 0 := by
  have hword : UnpackedFloat.unpack .binary64 (word 0) = .zero .positive := by
    rfl
  rw [value, hword]
  rfl

/-- Signed integers in a common unit: taking the whole multiple away leaves the remainder of the
integers, with the sign of the first. -/
theorem sub_wholePart_mul (s s' : Sign) {a b : ℕ} {c : ℚ} (hc : c ≠ 0) :
    s.apply 1 * (a * c) - wholePart (s.apply 1 * (a * c) / (s'.apply 1 * (b * c))) *
        (s'.apply 1 * (b * c)) = s.apply 1 * ((a % b : ℕ) * c) := by
  have hquotient : (s.apply 1 : ℚ) * (a * c) / (s'.apply 1 * (b * c)) =
      s.apply 1 * (s'.apply 1 * ((a : ℚ) / b)) := by
    rw [mul_div_mul_comm, mul_div_mul_right _ _ hc, div_eq_mul_inv, inv_apply_one, mul_assoc]
  have hmod : (a : ℚ) = b * (a / b : ℕ) + (a % b : ℕ) := by
    exact_mod_cast (Nat.div_add_mod a b).symm
  rw [hquotient, wholePart_apply, wholePart_apply, wholePart_natCast_div]
  simp only [Int.cast_mul, Int.cast_natCast]
  linear_combination (s.apply 1 : ℚ) * c * hmod -
    (s.apply 1 : ℚ) * c * b * (a / b : ℕ) * apply_one_mul_self s'

/-- The remainder of numbers is that of their mantissas, at the lower of the two exponents. -/
theorem remainder_eq (hx : x.isFinite = true) (hy : y.isFinite = true) (hne : value y ≠ 0) :
    let e := min (parts x).exponent (parts y).exponent
    remainder x y =
      ofParts (parts x).negative ((parts x).mantissa * 2 ^ ((parts x).exponent - e).toNat %
        ((parts y).mantissa * 2 ^ ((parts y).exponent - e).toNat)) e := by
  have hzero : (y == 0) = false := by
    rw [Bool.eq_false_iff, Ne, beq_iff_value hy isFinite_zero, value_zero]
    exact hne
  rw [remainder, isNaN_of_isFinite hx, isNaN_of_isFinite hy, isInf_of_isFinite hx, hzero,
    isInf_of_isFinite hy]
  simp only [Bool.or_false, Bool.false_eq_true, if_false, Nat.pow_eq]

/-- **The remainder is exact**: what is left when the whole multiple is taken away. -/
theorem value_remainder (hx : x.isFinite = true) (hy : y.isFinite = true) (hne : value y ≠ 0) :
    (remainder x y).isFinite = true ∧
      value (remainder x y) = value x - wholePart (value x / value y) * value y := by
  obtain ⟨⟨hm, hlow, -⟩, hhigh⟩ := parts_canonical hx
  obtain ⟨⟨hm', hlow', -⟩, -⟩ := parts_canonical hy
  have hremainder := remainder_eq hx hy hne
  simp only at hremainder
  set e := min (parts x).exponent (parts y).exponent with he
  set a := (parts x).mantissa * 2 ^ ((parts x).exponent - e).toNat with ha
  set b := (parts y).mantissa * 2 ^ ((parts y).exponent - e).toNat with hb
  have hvalue : value x = (signOf (parts x).negative).apply 1 * (a * (2 : ℚ) ^ e) := by
    have hshift : (a : ℚ) * (2 : ℚ) ^ e = (parts x).mantissa * (2 : ℚ) ^ (parts x).exponent :=
      natCast_mul_pow_mul_zpow (by omega)
    rw [hshift, value_eq_parts hx, apply_eq, mul_assoc]
  have hvalue' : value y = (signOf (parts y).negative).apply 1 * (b * (2 : ℚ) ^ e) := by
    have hshift : (b : ℚ) * (2 : ℚ) ^ e = (parts y).mantissa * (2 : ℚ) ^ (parts y).exponent :=
      natCast_mul_pow_mul_zpow (by omega)
    rw [hshift, value_eq_parts hy, apply_eq, mul_assoc]
  have hb₀ : (b : ℚ) ≠ 0 := by
    intro h
    rw [hvalue', h, zero_mul, mul_zero] at hne
    exact hne rfl
  -- The number with the lower exponent keeps its mantissa, and the remainder is at most that.
  have hlt : a % b < 2 ^ 53 := by
    obtain hle | hle := le_total (parts x).exponent (parts y).exponent
    · have hsame : a = (parts x).mantissa := by
        rw [ha, he, min_eq_left hle, sub_self]
        exact mul_one _
      exact lt_of_le_of_lt (Nat.mod_le a b) (hsame ▸ hm)
    · have hsame : b = (parts y).mantissa := by
        rw [hb, he, min_eq_right hle, sub_self]
        exact mul_one _
      exact (Nat.mod_lt a (Nat.pos_of_ne_zero (Nat.cast_ne_zero.1 hb₀))).trans (hsame ▸ hm')
  have hlow : -1074 ≤ e := le_min hlow hlow'
  have hhigh : e ≤ 971 := (min_le_left _ _).trans hhigh
  have hpos : (2 : ℚ) ^ e ≠ 0 := by positivity
  refine ⟨hremainder ▸ isFinite_ofParts _ hlt hlow hhigh, ?_⟩
  rw [hremainder, value_ofParts _ hlt hlow hhigh, apply_eq, mul_assoc, hvalue, hvalue',
    sub_wholePart_mul _ _ hpos]

end LogDensity.Binary64
