import LogDensity.Proofs.Binary64.Nearest
import LogDensity.Proofs.Binary64.Order
import LogDensity.Proofs.Binary64.Sign
import Mathlib

/-!
# The value of binary64 numbers

A finite binary64 number is unpacked into a sign, a mantissa and an exponent (`unpack_word`), which
are those that its bits show (`parts`). Its `value` is the rational that they stand for. Mantissa
and exponent are canonical: the mantissa has 53 digits, or the exponent is the lowest one. Canonical
ones can be packed and are found again (`unpack_pack`), unless the exponent is too large, when the
result is infinite. Of finite numbers, the order is that of their values (`lt_iff_value`).
-/

namespace LogDensity.Binary64

open Float.Model UnpackedFloat

/-! ## Canonical mantissas and exponents -/

/-- The mantissa has 53 digits, or the exponent is the lowest one. -/
structure Canonical (m : ℕ) (e : ℤ) : Prop where
  mantissa_lt : m < 2 ^ 53
  le_exponent : -1074 ≤ e
  normal_or_lowest : 2 ^ 52 ≤ m ∨ e = -1074

/-- The unpacked number `± m * 2 ^ e`. -/
def unpacked (s : Sign) (m : ℕ) (e : ℤ) : UnpackedFloat :=
  if h : m = 0 then .zero s else .finite s m e (Nat.pos_of_ne_zero h)

theorem unpacked_zero (s : Sign) (e : ℤ) : unpacked s 0 e = .zero s :=
  rfl

theorem unpacked_of_pos {s : Sign} {m : ℕ} {e : ℤ} (hm : 0 < m) :
    unpacked s m e = .finite s m e hm :=
  dif_neg hm.ne'

/-- The rational that an unpacked number stands for. -/
def rat : UnpackedFloat → ℚ
  | .finite s m e _ => s.apply (m : ℤ) * (2 : ℚ) ^ e
  | _ => 0

theorem rat_unpacked (s : Sign) (m : ℕ) (e : ℤ) :
    rat (unpacked s m e) = s.apply (m : ℤ) * (2 : ℚ) ^ e := by
  obtain rfl | hm := m.eq_zero_or_pos
  · cases s <;> simp [unpacked_zero, rat, Sign.apply]
  · rw [unpacked_of_pos hm, rat]

theorem rat_zero (s : Sign) (e : ℤ) : rat (unpacked s 0 e) = 0 :=
  rfl

theorem rat_neg (u : UnpackedFloat) : rat u.neg = -rat u := by
  cases u with
  | finite s m e hm => cases s <;> simp [UnpackedFloat.neg, rat, Sign.apply]
  | _ => exact neg_zero.symm

/-- The sign of a rational times a magnitude. -/
theorem apply_eq (s : Sign) (m : ℕ) : ((s.apply (m : ℤ) : ℤ) : ℚ) = s.apply 1 * m := by
  cases s <;> simp [Sign.apply]

theorem apply_one_mul_self (s : Sign) : ((s.apply 1 : ℤ) : ℚ) * s.apply 1 = 1 := by
  cases s <;> simp [Sign.apply]

theorem inv_apply_one (s : Sign) : ((s.apply 1 : ℤ) : ℚ)⁻¹ = s.apply 1 :=
  inv_eq_of_mul_eq_one_right (apply_one_mul_self s)

theorem rat_eq_apply_mul (s : Sign) (m : ℕ) (e : ℤ) :
    rat (unpacked s m e) = s.apply 1 * (m * (2 : ℚ) ^ e) := by
  rw [rat_unpacked, apply_eq, mul_assoc]

/-! ## Words -/

/-- The unpacked number with a given sign, exponent field and fraction field. -/
def ofFields (s : Sign) (field fraction : ℕ) : UnpackedFloat :=
  if field = 0 then unpacked s fraction (-1074) else unpacked s (2 ^ 52 + fraction) (field - 1075)

/-- Unless the exponent field is full, a word is unpacked into its fields. -/
theorem unpack_eq_ofFields {b : BitVec Format.binary64.numBits}
    (h : (unpackExponent b).toNat ≠ 2047) :
    UnpackedFloat.unpack .binary64 b =
      ofFields (Sign.ofBitVec (unpackSign b)) (unpackExponent b).toNat
        (unpackMantissa b).toNat := by
  have hfull : unpackExponent b ≠ -1#11 := fun hb => h (congrArg BitVec.toNat hb)
  have hzero : unpackExponent b = 0#11 ↔ (unpackExponent b).toNat = 0 :=
    ⟨congrArg BitVec.toNat, fun hb => BitVec.eq_of_toNat_eq hb⟩
  rw [UnpackedFloat.unpack, ofFields]
  simp only [if_neg hfull, hzero]
  split
  · rename_i hb
    rw [unpacked, hb]
    split
    · rename_i hm
      have hmantissa : (unpackMantissa b).toNat = 0 := congrArg BitVec.toNat hm
      rw [dif_pos hmantissa]
    · rename_i hm
      have hmantissa : (unpackMantissa b).toNat ≠ 0 := fun h => hm (BitVec.eq_of_toNat_eq h)
      rw [dif_neg hmantissa]
      rfl
  · have happend : (1#1 ++ unpackMantissa b).toNat = 2 ^ 52 + (unpackMantissa b).toNat := by
      rw [BitVec.toNat_append]
      exact (Nat.two_pow_add_eq_or_of_lt (unpackMantissa b).isLt 1).symm
    rw [unpacked_of_pos (by omega)]
    congr 1

/-- The fields that a word is packed from are found again. -/
theorem unpack_packFields {field fraction : ℕ} (s : Sign) (hfield : field < 2047)
    (hfraction : fraction < 2 ^ 52) :
    UnpackedFloat.unpack .binary64 (packComponents .binary64 s (BitVec.ofNat 11 field)
        (BitVec.ofNat 52 fraction)) = ofFields s field fraction := by
  have hexponent : (BitVec.ofNat 11 field).toNat = field := Nat.mod_eq_of_lt (by omega)
  have hmantissa : (BitVec.ofNat 52 fraction).toNat = fraction := Nat.mod_eq_of_lt hfraction
  rw [unpack_eq_ofFields, unpackSign_packComponents, unpackExponent_packComponents,
    unpackMantissa_packComponents, Sign.ofBitVec_toBitVec, hexponent, hmantissa]
  rw [unpackExponent_packComponents, hexponent]
  exact hfield.ne

/-- A number read off its fields is canonical. -/
theorem exists_canonical {field fraction : ℕ} (s : Sign) (hfield : field < 2047)
    (hfraction : fraction < 2 ^ 52) :
    ∃ m e, Canonical m e ∧ e ≤ 971 ∧ ofFields s field fraction = unpacked s m e := by
  rw [ofFields]
  split
  · exact ⟨_, _, ⟨by omega, le_rfl, .inr rfl⟩, by norm_num, rfl⟩
  · exact ⟨_, _, ⟨by omega, by omega, .inl (by omega)⟩, by omega, rfl⟩

/-! ## Packing -/

variable {s : Sign} {m : ℕ} {e : ℤ}

/-- What is canonical and not too large is packed without loss. -/
theorem unpack_pack (h : Canonical m e) (he : e ≤ 971) :
    UnpackedFloat.unpack .binary64 (UnpackedFloat.pack .binary64 (unpacked s m e)) =
      unpacked s m e := by
  obtain rfl | hm := m.eq_zero_or_pos
  · exact unpack_packedZero
  obtain ⟨hlt, hlow, hnormal⟩ := h
  have hfield : ¬ 2 ^ 11 ≤ (e + 1023 + 52).toNat + 1 := by omega
  have hdigits : m.log2 + 1 = 53 ↔ 2 ^ 52 ≤ m := by
    have hlog : m.log2 < 53 := (Nat.log2_lt hm.ne').2 hlt
    rw [← Nat.le_log2 hm.ne']
    omega
  have hfraction : BitVec.ofNat 52 m = BitVec.ofNat 52 (m % 2 ^ 52) :=
    BitVec.eq_of_toNat_eq (Nat.mod_mod m (2 ^ 52)).symm
  have hpack : UnpackedFloat.pack .binary64 (unpacked s m e) =
      packComponents .binary64 s
        (BitVec.ofNat 11 (if 2 ^ 52 ≤ m then (e + 1023 + 52).toNat else 0))
        (BitVec.ofNat 52 (m % 2 ^ 52)) := by
    rw [unpacked_of_pos hm, ← hfraction]
    refine (if_neg hfield).trans ?_
    split_ifs with hif hbig hbig
    · rfl
    · exact absurd (hdigits.1 hif) hbig
    · exact absurd (hdigits.2 hbig) hif
    · rfl
  rw [hpack, unpack_packFields s (by split <;> omega) (Nat.mod_lt _ (by norm_num)), ofFields]
  split_ifs with hbig hzero hzero
  · omega
  · congr 1 <;> omega
  · congr 1 <;> omega
  · exact absurd rfl hzero

/-- What is too large becomes infinite. -/
theorem pack_of_lt (hm : 0 < m) (he : 971 < e) :
    UnpackedFloat.pack .binary64 (unpacked s m e) = packedInfinity .binary64 s := by
  have hfield : 2 ^ 11 ≤ (e + 1023 + 52).toNat + 1 := by omega
  rw [unpacked_of_pos hm]
  exact if_pos hfield

theorem unpack_packedInfinity (s : Sign) :
    UnpackedFloat.unpack .binary64 (packedInfinity .binary64 s) = .infinity s := by
  cases s <;> rfl

/-! ## The value of a number -/

variable {x y : Float}

/-- The rational that a finite number stands for. -/
def value (x : Float) : ℚ :=
  rat (UnpackedFloat.unpack .binary64 (word x))

theorem isFinite_eq (x : Float) :
    x.isFinite = (UnpackedFloat.unpack .binary64 (word x)).isFinite :=
  rfl

theorem isNaN_of_isFinite (hx : x.isFinite = true) : x.isNaN = false := by
  rw [isFinite_eq] at hx
  rw [isNaN_eq]
  cases h : UnpackedFloat.unpack .binary64 (word x) with
  | notANumber =>
    rw [h] at hx
    cases hx
  | _ => rfl

theorem isInf_of_isFinite (hx : x.isFinite = true) : x.isInf = false := by
  have hinf : x.isInf = (UnpackedFloat.unpack .binary64 (word x)).isInf := rfl
  rw [isFinite_eq] at hx
  rw [hinf]
  cases h : UnpackedFloat.unpack .binary64 (word x) with
  | infinity s =>
    rw [h] at hx
    cases hx
  | _ => rfl

/-- The exponent field of a finite number is not full. -/
theorem unpackExponent_ne (hx : x.isFinite = true) : (unpackExponent (word x)).toNat ≠ 2047 := by
  intro h
  have hfull : unpackExponent (word x) = -1#11 := BitVec.eq_of_toNat_eq h
  rw [isFinite_eq, UnpackedFloat.unpack] at hx
  simp only [if_pos hfull] at hx
  split at hx <;> cases hx

theorem isFinite_unpacked (s : Sign) (m : ℕ) (e : ℤ) : (unpacked s m e).isFinite = true := by
  rw [unpacked]
  split <;> rfl

/-- A finite number is unpacked into a canonical mantissa and exponent. -/
theorem exists_unpack (hx : x.isFinite = true) :
    ∃ s m e, Canonical m e ∧ e ≤ 971 ∧
      UnpackedFloat.unpack .binary64 (word x) = unpacked s m e := by
  have hfull := unpackExponent_ne hx
  have hfield : (unpackExponent (word x)).toNat < 2 ^ 11 := (unpackExponent (word x)).isLt
  obtain ⟨m, e, h, he, heq⟩ := exists_canonical (Sign.ofBitVec (unpackSign (word x)))
    (by omega : (unpackExponent (word x)).toNat < 2047) (unpackMantissa (word x)).isLt
  exact ⟨_, m, e, h, he, (unpack_eq_ofFields hfull).trans heq⟩

/-! ## Representable values -/

theorem abs_apply (s : Sign) (m : ℕ) : |(s.apply (m : ℤ) : ℤ)| = (m : ℤ) := by
  cases s <;> simp [Sign.apply]

theorem Canonical.representable (h : Canonical m e) (s : Sign) :
    Representable (rat (unpacked s m e)) := by
  refine ⟨s.apply m, e, ?_, h.le_exponent, rat_unpacked s m e⟩
  rw [abs_apply]
  exact_mod_cast h.mantissa_lt.le

theorem representable_value (hx : x.isFinite = true) : Representable (value x) := by
  obtain ⟨s, m, e, h, -, heq⟩ := exists_unpack hx
  rw [value, heq]
  exact h.representable s

theorem abs_rat_unpacked (s : Sign) (m : ℕ) (e : ℤ) :
    |rat (unpacked s m e)| = m * (2 : ℚ) ^ e := by
  rw [rat_unpacked, abs_mul, abs_of_pos (by positivity : (0 : ℚ) < (2 : ℚ) ^ e), ← Int.cast_abs,
    abs_apply, Int.cast_natCast]

/-- Canonical numbers are too large exactly if their exponent is. -/
theorem Canonical.lt_iff (h : Canonical m e) :
    (m : ℚ) * (2 : ℚ) ^ e < 2 ^ 1024 ↔ e ≤ 971 := by
  have hm : (m : ℚ) < 2 ^ 53 := by exact_mod_cast h.mantissa_lt
  constructor
  · intro hlt
    by_contra hlarge
    have hbig : (2 ^ 52 : ℚ) ≤ m := by
      have hnormal : 2 ^ 52 ≤ m := h.normal_or_lowest.resolve_right (by omega)
      exact_mod_cast hnormal
    refine absurd hlt (not_lt.2 ?_)
    calc (2 ^ 1024 : ℚ) = 2 ^ 52 * (2 : ℚ) ^ (972 : ℤ) := (pow_mul_zpow 52 972).symm
      _ ≤ m * (2 : ℚ) ^ e :=
        mul_le_mul hbig (zpow_le_zpow_right₀ (by norm_num) (by omega)) (zpow_pos two_pos _).le
          m.cast_nonneg
  · intro hle
    calc (m : ℚ) * (2 : ℚ) ^ e < 2 ^ 53 * (2 : ℚ) ^ e :=
          mul_lt_mul_of_pos_right hm (by positivity)
      _ ≤ 2 ^ 53 * (2 : ℚ) ^ (971 : ℤ) :=
        mul_le_mul_of_nonneg_left (zpow_le_zpow_right₀ (by norm_num) hle) (by positivity)
      _ = 2 ^ 1024 := pow_mul_zpow 53 971

theorem abs_value_lt (hx : x.isFinite = true) : |value x| < 2 ^ 1024 := by
  obtain ⟨s, m, e, h, he, heq⟩ := exists_unpack hx
  rw [value, heq, abs_rat_unpacked]
  exact h.lt_iff.2 he

/-! ## Negation -/

theorem value_neg (hx : x.isNaN = false) : value (-x) = -value x := by
  rw [value, unpack_word_neg hx, rat_neg, value]

theorem isFinite_neg (hx : x.isNaN = false) : (-x).isFinite = x.isFinite := by
  rw [isFinite_eq, unpack_word_neg hx, isFinite_eq]
  cases UnpackedFloat.unpack .binary64 (word x) <;> rfl

/-! ## The order -/

/-- The magnitude of canonical numbers is compared by the exponent first. -/
theorem Canonical.compare_eq {m' : ℕ} {e' : ℤ} (h : Canonical m e) (h' : Canonical m' e') :
    (compare e e').then (compare m m') = compare (m * (2 : ℚ) ^ e) (m' * (2 : ℚ) ^ e') := by
  have hlt {m m' : ℕ} {e e' : ℤ} (h : Canonical m e) (h' : Canonical m' e') (he : e < e') :
      (m : ℚ) * (2 : ℚ) ^ e < m' * (2 : ℚ) ^ e' := by
    have hm : (m : ℚ) < 2 ^ 53 := by exact_mod_cast h.mantissa_lt
    have hbig : (2 ^ 52 : ℚ) ≤ m' := by
      have hlow := h.le_exponent
      have hnormal : 2 ^ 52 ≤ m' := h'.normal_or_lowest.resolve_right (by omega)
      exact_mod_cast hnormal
    calc (m : ℚ) * (2 : ℚ) ^ e < 2 ^ 53 * (2 : ℚ) ^ e :=
          mul_lt_mul_of_pos_right hm (by positivity)
      _ = 2 ^ 52 * (2 : ℚ) ^ (e + 1) := pow_succ_mul_zpow 52 e
      _ ≤ m' * (2 : ℚ) ^ e' :=
        mul_le_mul hbig (zpow_le_zpow_right₀ (by norm_num) he) (by positivity) (by positivity)
  obtain he | rfl | he := lt_trichotomy e e'
  · rw [compare_lt_iff_lt.2 he, compare_lt_iff_lt.2 (hlt h h' he)]
    rfl
  · have hpos : (0 : ℚ) < (2 : ℚ) ^ e := by positivity
    rw [compare_eq_iff_eq.2 rfl]
    obtain hm | rfl | hm := lt_trichotomy m m'
    · rw [compare_lt_iff_lt.2 hm, compare_lt_iff_lt.2]
      · rfl
      · exact mul_lt_mul_of_pos_right (by exact_mod_cast hm) hpos
    · rw [compare_eq_iff_eq.2 rfl, compare_eq_iff_eq.2 rfl]
      rfl
    · rw [compare_gt_iff_gt.2 hm, compare_gt_iff_gt.2]
      · rfl
      · exact mul_lt_mul_of_pos_right (by exact_mod_cast hm) hpos
  · rw [compare_gt_iff_gt.2 he, compare_gt_iff_gt.2 (hlt h' h he)]
    rfl

theorem rat_positive (m : ℕ) (e : ℤ) : rat (unpacked .positive m e) = m * (2 : ℚ) ^ e :=
  rat_unpacked .positive m e

theorem rat_negative (m : ℕ) (e : ℤ) : rat (unpacked .negative m e) = -(m * (2 : ℚ) ^ e) := by
  rw [rat_unpacked, Sign.apply]
  push_cast
  ring

theorem compare_neg (a b : ℚ) : compare (-a) (-b) = (compare a b).swap := by
  obtain h | rfl | h := lt_trichotomy a b
  · rw [compare_lt_iff_lt.2 h, compare_gt_iff_gt.2 (neg_lt_neg h)]
    rfl
  · rw [compare_eq_iff_eq.2 rfl, compare_eq_iff_eq.2 rfl]
    rfl
  · rw [compare_gt_iff_gt.2 h, compare_lt_iff_lt.2 (neg_lt_neg h)]
    rfl

/-- Canonical numbers are compared as the rationals that they stand for. -/
theorem compare_unpacked {s' : Sign} {m' : ℕ} {e' : ℤ} (h : Canonical m e) (h' : Canonical m' e') :
    (unpacked s m e).compare (unpacked s' m' e') =
      some (compare (rat (unpacked s m e)) (rat (unpacked s' m' e'))) := by
  have hpos {m : ℕ} (hm : 0 < m) (e : ℤ) : (0 : ℚ) < m * (2 : ℚ) ^ e := by positivity
  obtain rfl | hm := m.eq_zero_or_pos <;> obtain rfl | hm' := m'.eq_zero_or_pos
  · rfl
  · rw [rat_zero]
    cases s' with
    | positive =>
      rw [rat_positive, compare_lt_iff_lt.2 (hpos hm' e'), unpacked_of_pos hm']
      rfl
    | negative =>
      rw [rat_negative, compare_gt_iff_gt.2 (neg_neg_of_pos (hpos hm' e')), unpacked_of_pos hm']
      rfl
  · rw [rat_zero]
    cases s with
    | positive =>
      rw [rat_positive, compare_gt_iff_gt.2 (hpos hm e), unpacked_of_pos hm]
      rfl
    | negative =>
      rw [rat_negative, compare_lt_iff_lt.2 (neg_neg_of_pos (hpos hm e)), unpacked_of_pos hm]
      rfl
  · cases s with
    | positive =>
      cases s' with
      | positive =>
        rw [rat_positive, rat_positive, ← h.compare_eq h', unpacked_of_pos hm, unpacked_of_pos hm']
        rfl
      | negative =>
        have hlt := (neg_neg_of_pos (hpos hm' e')).trans (hpos hm e)
        rw [rat_positive, rat_negative, compare_gt_iff_gt.2 hlt, unpacked_of_pos hm,
          unpacked_of_pos hm']
        rfl
    | negative =>
      cases s' with
      | positive =>
        have hlt := (neg_neg_of_pos (hpos hm e)).trans (hpos hm' e')
        rw [rat_positive, rat_negative, compare_lt_iff_lt.2 hlt, unpacked_of_pos hm,
          unpacked_of_pos hm']
        rfl
      | negative =>
        rw [rat_negative, rat_negative, compare_neg, ← h.compare_eq h', unpacked_of_pos hm,
          unpacked_of_pos hm']
        rfl

theorem compare_word (hx : x.isFinite = true) (hy : y.isFinite = true) :
    x.toModel.unpack.compare y.toModel.unpack = some (compare (value x) (value y)) := by
  obtain ⟨s, m, e, h, -, heq⟩ := exists_unpack hx
  obtain ⟨s', m', e', h', -, heq'⟩ := exists_unpack hy
  rw [value, value, heq, heq', ← compare_unpacked h h', ← heq, ← heq']
  rfl

/-- **The order of finite numbers is that of their values.** -/
theorem lt_iff_value (hx : x.isFinite = true) (hy : y.isFinite = true) :
    x < y ↔ value x < value y := by
  rw [lt_iff, compare_word hx hy, Option.some_inj, compare_lt_iff_lt]

theorem le_iff_value (hx : x.isFinite = true) (hy : y.isFinite = true) :
    x ≤ y ↔ value x ≤ value y := by
  rw [le_iff, compare_word hx hy, Option.any_some, Ordering.isLE_iff_ne_gt, ← not_lt,
    ← compare_gt_iff_gt]

theorem beq_iff_value (hx : x.isFinite = true) (hy : y.isFinite = true) :
    (x == y) = true ↔ value x = value y := by
  have hbeq : (x == y) = (x.toModel.unpack.compare y.toModel.unpack == some .eq) := rfl
  rw [hbeq, compare_word hx hy, beq_iff_eq, Option.some_inj, compare_eq_iff_eq]

end LogDensity.Binary64
