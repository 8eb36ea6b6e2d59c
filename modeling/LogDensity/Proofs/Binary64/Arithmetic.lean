import LogDensity.Proofs.Binary64.Value
import Mathlib

/-!
# Binary64 arithmetic is correctly rounded

A sum, difference, product or quotient of finite binary64 numbers is the number nearest to the
rational result (`rounds_add`, `rounds_sub`, `rounds_mul`, `rounds_div`), and it is finite exactly
if that is below `2 ^ 1024`.

The operations compute a mantissa with two more bits, a round bit and a sticky bit, which tell how
far the exact result is above the mantissa (`Represents`). That is kept when the mantissa is shifted
to the last place of the result, and it is enough to round there (`Represents.roundEven_eq`).
-/

namespace LogDensity.Binary64

open Float.Model UnpackedFloat

/-! ## Round bit and sticky bit -/

/-- An extended mantissa tells where a rational lies above the mantissa. -/
structure Represents (em : ExtendedMantissa) (z : ℚ) : Prop where
  le : em.mantissa ≤ z
  lt : z < em.mantissa + 1
  roundBit_iff : em.roundBit = true ↔ em.mantissa + 1 / 2 ≤ z
  stickyBit_iff : em.stickyBit = true ↔ z ≠ em.mantissa ∧ z ≠ em.mantissa + 1 / 2

namespace Represents

variable {em : ExtendedMantissa} {z : ℚ}

theorem exact (m : ℕ) : Represents ⟨m, false, false⟩ m where
  le := le_rfl
  lt := lt_add_one _
  roundBit_iff := iff_of_false Bool.false_ne_true (by norm_num)
  stickyBit_iff := iff_of_false Bool.false_ne_true fun h => h.1 rfl

variable {m : ℕ}

theorem below_half (hlow : m < z) (hhigh : z < m + 1 / 2) : Represents ⟨m, false, true⟩ z where
  le := hlow.le
  lt := hhigh.trans (by norm_num)
  roundBit_iff := iff_of_false Bool.false_ne_true (not_le.2 hhigh)
  stickyBit_iff := iff_of_true rfl ⟨hlow.ne', hhigh.ne⟩

theorem half (m : ℕ) : Represents ⟨m, true, false⟩ (m + 1 / 2) where
  le := by norm_num
  lt := by norm_num
  roundBit_iff := iff_of_true rfl le_rfl
  stickyBit_iff := iff_of_false Bool.false_ne_true fun h => h.2 rfl

theorem above_half (hlow : m + 1 / 2 < z) (hhigh : z < m + 1) :
    Represents ⟨m, true, true⟩ z where
  le := le_trans (by norm_num) hlow.le
  lt := hhigh
  roundBit_iff := iff_of_true rfl hlow.le
  stickyBit_iff := iff_of_true rfl ⟨(lt_of_le_of_lt (by norm_num) hlow).ne', hlow.ne'⟩

/-- The accuracy of a division says what the remainder is. -/
theorem of_division (n : ℕ) {d : ℕ} (hd : 0 < d) :
    Represents (.ofMantissaAndAccuracy (n / d) (accuracyOfFraction (n % d) d)) (n / d) := by
  have hdq : (0 : ℚ) < d := by exact_mod_cast hd
  have hmod : (d : ℚ) * (n / d : ℕ) + (n % d : ℕ) = n := by exact_mod_cast Nat.div_add_mod n d
  have hz : (n : ℚ) / d = (n / d : ℕ) + ((n % d : ℕ) : ℚ) / d := by
    rw [← hmod, add_div, mul_div_cancel_left₀ _ hdq.ne']
  have hlt : ((n % d : ℕ) : ℚ) / d < 1 := by
    rw [div_lt_one hdq]
    exact_mod_cast Nat.mod_lt n hd
  rw [hz]
  generalize n / d = m
  obtain hzero | hpos := (n % d).eq_zero_or_pos
  · rw [hzero, accuracyOfFraction, if_pos rfl, Nat.cast_zero, zero_div, add_zero]
    exact .exact m
  rw [accuracyOfFraction, if_neg hpos.ne']
  have hfrac : 0 < ((n % d : ℕ) : ℚ) / d := by positivity
  obtain h | h | h := lt_trichotomy (2 * (n % d)) d
  · have hhalf : ((n % d : ℕ) : ℚ) / d < 1 / 2 := by
      rw [div_lt_div_iff₀ hdq two_pos]
      exact_mod_cast (by omega : n % d * 2 < 1 * d)
    rw [compare_lt_iff_lt.2 h]
    exact below_half (by linarith) (by linarith)
  · have hhalf : ((n % d : ℕ) : ℚ) / d = 1 / 2 := by
      rw [div_eq_div_iff hdq.ne' two_ne_zero]
      exact_mod_cast (by omega : n % d * 2 = 1 * d)
    rw [compare_eq_iff_eq.2 h, hhalf]
    exact half m
  · have hhalf : 1 / 2 < ((n % d : ℕ) : ℚ) / d := by
      rw [div_lt_div_iff₀ two_pos hdq]
      exact_mod_cast (by omega : 1 * d < n % d * 2)
    rw [compare_gt_iff_gt.2 h]
    exact above_half (by linarith) (by linarith)

/-- What is left of the mantissa goes into the round bit, and that into the sticky bit. -/
theorem shiftRightOne (h : Represents em z) : Represents em.shiftRightOne (z / 2) := by
  obtain ⟨m, r, s⟩ := em
  obtain ⟨hle, hlt, hround, hsticky⟩ := h
  simp only at hle hlt hround hsticky
  -- Nothing was lost so far exactly if the number is the mantissa.
  have hlost : (r || s) = true ↔ z ≠ m := by
    rw [Bool.or_eq_true, hround, hsticky]
    constructor
    · rintro (h | h)
      · linarith
      · exact h.1
    · intro h
      by_cases hhalf : z = m + 1 / 2
      · exact .inl hhalf.ge
      · exact .inr ⟨h, hhalf⟩
  have hshift : ExtendedMantissa.shiftRightOne ⟨m, r, s⟩ = ⟨m / 2, m % 2 != 0, r || s⟩ := rfl
  have hparity : (m : ℚ) = 2 * (m / 2 : ℕ) + (m % 2 : ℕ) := by
    exact_mod_cast (Nat.div_add_mod m 2).symm
  rw [hshift]
  generalize m / 2 = q, (r || s) = lost at *
  obtain hmod | hmod := Nat.mod_two_eq_zero_or_one m
  · rw [hmod] at hparity ⊢
    push_cast at hparity
    refine ⟨by linarith, by linarith, iff_of_false Bool.false_ne_true (by linarith), ?_⟩
    rw [hlost]
    refine ⟨fun h => ⟨fun heq => h (by linarith), by linarith⟩, fun h heq => h.1 (by linarith)⟩
  · rw [hmod] at hparity ⊢
    push_cast at hparity
    refine ⟨by linarith, by linarith, iff_of_true rfl (by linarith), ?_⟩
    rw [hlost]
    refine ⟨fun h => ⟨by linarith, fun heq => h (by linarith)⟩, fun h heq => h.2 (by linarith)⟩

theorem shiftRight (h : Represents em z) (n : ℕ) : Represents (em >>> n) (z / 2 ^ n) := by
  change Represents (n.repeat ExtendedMantissa.shiftRightOne em) _
  induction n with
  | zero =>
    rw [pow_zero, div_one]
    exact h
  | succ n ih =>
    rw [pow_succ, ← div_div]
    exact ih.shiftRightOne

/-- The two bits are enough to round. -/
theorem roundEven_eq (h : Represents em z) : roundEven z = em.roundedMantissa := by
  obtain ⟨m, r, s⟩ := em
  obtain ⟨hle, hlt, hround, hsticky⟩ := h
  simp only at hle hlt hround hsticky
  rw [roundEven_eq_iff]
  cases r with
  | false =>
    have hlow : z < m + 1 / 2 := not_le.1 fun h => Bool.false_ne_true (hround.2 h)
    have hrounded : ExtendedMantissa.roundedMantissa ⟨m, false, s⟩ = m := by cases s <;> rfl
    left
    rw [hrounded, Int.cast_natCast, abs_of_nonneg (by linarith)]
    linarith
  | true =>
    have hhigh : m + 1 / 2 ≤ z := hround.1 rfl
    cases s with
    | false =>
      have htie : z = m + 1 / 2 := by
        by_contra hne
        have hm : z ≠ m := by linarith
        exact Bool.false_ne_true (hsticky.2 ⟨hm, hne⟩)
      have hrounded : ExtendedMantissa.roundedMantissa ⟨m, true, false⟩ = m + m % 2 := rfl
      right
      rw [hrounded, htie]
      obtain hmod | hmod := Nat.mod_two_eq_zero_or_one m
      · rw [hmod]
        refine ⟨by norm_num, ?_⟩
        exact_mod_cast Nat.even_iff.2 hmod
      · rw [hmod]
        refine ⟨by norm_num [abs_of_neg], ?_⟩
        exact_mod_cast (Nat.odd_iff.2 hmod).add_one
    | true =>
      have hrounded : ExtendedMantissa.roundedMantissa ⟨m, true, true⟩ = m + 1 := rfl
      have hne : m + 1 / 2 < z := lt_of_le_of_ne hhigh (hsticky.1 rfl).2.symm
      left
      rw [hrounded, abs_of_nonpos (by push_cast; linarith)]
      push_cast
      linarith

end Represents

/-! ## Rounding -/

/-- An unpacked number is the one nearest to a rational. -/
def Rounded (u : UnpackedFloat) (v : ℚ) : Prop :=
  ∃ s m e, Canonical m e ∧ u = unpacked s m e ∧ rat u = nearest v

variable {m : ℕ} {e : ℤ} {z : ℚ}

theorem targetExponent_eq (m : ℕ) (e : ℤ) :
    Format.binary64.targetExponent (totalExponent m e) = max ((m.log2 : ℤ) + e - 52) (-1074) := by
  have htarget : Format.binary64.targetExponent (totalExponent m e) =
      max ((m.log2 : ℤ) + 1 + e - 53) (-1074) := rfl
  rw [htarget]
  omega

/-- The exponent that a mantissa is shifted to is that of the last place. -/
theorem targetExponent_eq_lastPlace (hz : 0 < z) (hle : m ≤ z) (hlt : z < m + 1)
    (he : e ≤ -1074 ∨ 2 ^ 52 ≤ m) :
    Format.binary64.targetExponent (totalExponent m e) = lastPlace (z * (2 : ℚ) ^ e) := by
  have habs : |z * (2 : ℚ) ^ e| = z * (2 : ℚ) ^ e := abs_of_pos (by positivity)
  rw [targetExponent_eq]
  refine (lastPlace_eq (le_max_right _ _) ?_ ?_).symm
  · have hdigits : z < 2 ^ (m.log2 + 1) := by
      have hm : m + 1 ≤ 2 ^ (m.log2 + 1) := Nat.lt_log2_self
      exact hlt.trans_le (by exact_mod_cast hm)
    rw [habs, pow_mul_zpow]
    calc z * (2 : ℚ) ^ e < 2 ^ (m.log2 + 1) * (2 : ℚ) ^ e :=
          mul_lt_mul_of_pos_right hdigits (by positivity)
      _ = (2 : ℚ) ^ (((m.log2 + 1 : ℕ) : ℤ) + e) := pow_mul_zpow _ _
      _ ≤ _ := zpow_le_zpow_right₀ (by norm_num) (by push_cast; omega)
  · rw [habs, pow_mul_zpow]
    obtain hlowest | hhigh := le_or_gt ((m.log2 : ℤ) + e - 52) (-1074)
    · exact .inr ⟨by positivity, max_eq_right hlowest⟩
    · left
      have hm : m ≠ 0 := by
        rintro rfl
        rw [Nat.log2_zero] at hhigh
        omega
      rw [max_eq_left hhigh.le]
      calc (2 : ℚ) ^ (((52 : ℕ) : ℤ) + ((m.log2 : ℤ) + e - 52)) = 2 ^ m.log2 * (2 : ℚ) ^ e := by
            rw [pow_mul_zpow]
            congr 1
            push_cast
            ring
        _ ≤ z * (2 : ℚ) ^ e := by
          refine mul_le_mul_of_nonneg_right (le_trans ?_ hle) (by positivity)
          exact_mod_cast Nat.log2_self_le hm

/-- The number of digits that a shift drops. -/
theorem shiftToTargetExponent_eq {acc : Accuracy} {k : ℕ}
    (hk : (Format.binary64.targetExponent (totalExponent m e) - e).toNat = k) :
    shiftToTargetExponent .binary64 m e acc =
      (ExtendedMantissa.ofMantissaAndAccuracy m acc >>> k, e + k) := by
  subst hk
  rfl

/-- The second shift is by one digit at most, and drops none. -/
theorem shiftToTargetExponent_exact (hm : m ≤ 2 ^ 53) (he : -1074 ≤ e)
    (hnormal : 2 ^ 52 ≤ m ∨ e = -1074) :
    let shifted := shiftToTargetExponent .binary64 m e .exact
    Canonical shifted.1.mantissa shifted.2 ∧
      (shifted.1.mantissa : ℚ) * (2 : ℚ) ^ shifted.2 = m * (2 : ℚ) ^ e := by
  obtain hlt | rfl := hm.lt_or_eq
  · have hlog : m.log2 < 53 := by
      obtain rfl | hpos := m.eq_zero_or_pos
      · norm_num
      · exact (Nat.log2_lt hpos.ne').2 hlt
    have hk : (Format.binary64.targetExponent (totalExponent m e) - e).toNat = 0 := by
      rw [targetExponent_eq]
      omega
    rw [shiftToTargetExponent_eq hk, Nat.cast_zero, add_zero]
    exact ⟨⟨hlt, he, hnormal⟩, rfl⟩
  · have hk : (Format.binary64.targetExponent (totalExponent (2 ^ 53) e) - e).toNat = 1 := by
      rw [targetExponent_eq, Nat.log2_two_pow]
      omega
    have hhalf : (ExtendedMantissa.ofMantissaAndAccuracy (2 ^ 53) .exact >>> 1).mantissa = 2 ^ 52 :=
      rfl
    rw [shiftToTargetExponent_eq hk, Nat.cast_one]
    dsimp only
    rw [hhalf]
    refine ⟨⟨by norm_num, by omega, .inl le_rfl⟩, ?_⟩
    push_cast
    exact (pow_succ_mul_zpow 52 e).symm

theorem nearest_apply (s : Sign) (v : ℚ) : nearest (s.apply 1 * v) = s.apply 1 * nearest v := by
  cases s with
  | positive => simp [Sign.apply]
  | negative =>
    simp only [Sign.apply, Int.cast_neg, Int.cast_one, neg_mul, one_mul]
    exact nearest_neg v

/-- The mantissa of the nearest number has at most 53 digits, or is the first one with 54. -/
theorem roundEven_bounds (hz : 0 < z) :
    0 ≤ roundEven (z / (2 : ℚ) ^ lastPlace z) ∧ roundEven (z / (2 : ℚ) ^ lastPlace z) ≤ 2 ^ 53 ∧
      (2 ^ 52 ≤ roundEven (z / (2 : ℚ) ^ lastPlace z) ∨ lastPlace z = -1074) := by
  have hpos : (0 : ℚ) < (2 : ℚ) ^ lastPlace z := by positivity
  have hlt := abs_lt_zpow_lastPlace z
  have hle := zpow_lastPlace_le hz.ne'
  rw [abs_of_pos hz] at hlt hle
  refine ⟨le_roundEven (by push_cast; positivity), roundEven_le ?_, ?_⟩
  · push_cast
    exact (div_le_iff₀ hpos).2 hlt.le
  · obtain hlowest | hhigh := (le_lastPlace z).eq_or_lt
    · exact .inr hlowest.symm
    · left
      apply le_roundEven
      push_cast
      exact (le_div_iff₀ hpos).2 (hle hhigh)

/-- The first shift is to the last place, where the mantissa is rounded. -/
theorem exists_shiftToTargetExponent {acc : Accuracy}
    (h : Represents (.ofMantissaAndAccuracy m acc) z) (hz : 0 < z)
    (he : e ≤ -1074 ∨ 2 ^ 52 ≤ m) :
    let x := z * (2 : ℚ) ^ e
    ∃ em, shiftToTargetExponent .binary64 m e acc = (em, lastPlace x) ∧
      Represents em (x / (2 : ℚ) ^ lastPlace x) := by
  intro x
  have hmantissa : (ExtendedMantissa.ofMantissaAndAccuracy m acc).mantissa = m := by
    rcases acc with _ | (_ | _ | _) <;> rfl
  have htarget : Format.binary64.targetExponent (totalExponent m e) = lastPlace x :=
    targetExponent_eq_lastPlace hz (hmantissa ▸ h.le) (hmantissa ▸ h.lt) he
  have hplace : e ≤ lastPlace x := by
    rw [← htarget, targetExponent_eq]
    obtain hlow | hbig := he
    · omega
    · have hm : m ≠ 0 := by omega
      have hlog : 52 ≤ m.log2 := (Nat.le_log2 hm).2 hbig
      omega
  obtain ⟨k, hk⟩ : ∃ k : ℕ, lastPlace x - e = k := Int.eq_ofNat_of_zero_le (by omega)
  have hsum : e + k = lastPlace x := by omega
  have hscaled : x / (2 : ℚ) ^ lastPlace x = z / 2 ^ k := by
    have hpos : (2 : ℚ) ^ e ≠ 0 := by positivity
    rw [← hsum, add_comm, ← pow_mul_zpow, mul_div_mul_right _ _ hpos]
  refine ⟨ExtendedMantissa.ofMantissaAndAccuracy m acc >>> k, ?_, hscaled ▸ h.shiftRight k⟩
  rw [shiftToTargetExponent_eq (by rw [htarget, hk, Int.toNat_natCast]), hsum]

/-- A mantissa with enough digits and an accuracy are rounded to the nearest number. -/
theorem rounded_roundWithAccuracy {acc : Accuracy} (s : Sign)
    (h : Represents (.ofMantissaAndAccuracy m acc) z) (hz : 0 < z)
    (he : e ≤ -1074 ∨ 2 ^ 52 ≤ m) :
    Rounded (roundWithAccuracy .binary64 s m e acc) (s.apply 1 * (z * (2 : ℚ) ^ e)) := by
  obtain ⟨em, hfirst, hem⟩ := exists_shiftToTargetExponent h hz he
  set x := z * (2 : ℚ) ^ e
  have hround : roundEven (x / (2 : ℚ) ^ lastPlace x) = em.roundedMantissa := hem.roundEven_eq
  obtain ⟨-, hhigh, hnormal⟩ := roundEven_bounds (by positivity : 0 < x)
  rw [hround] at hhigh hnormal
  have hbound : em.roundedMantissa ≤ 2 ^ 53 := by exact_mod_cast hhigh
  obtain ⟨hcanonical, hvalue⟩ := shiftToTargetExponent_exact hbound (le_lastPlace x)
    (hnormal.imp_left fun h => by exact_mod_cast h)
  have hresult : roundWithAccuracy .binary64 s m e acc =
      unpacked s
        (shiftToTargetExponent .binary64 em.roundedMantissa (lastPlace x) .exact).1.mantissa
        (shiftToTargetExponent .binary64 em.roundedMantissa (lastPlace x) .exact).2 := by
    rw [roundWithAccuracy, hfirst]
    rfl
  refine ⟨s, _, _, hcanonical, hresult, ?_⟩
  rw [hresult, rat_eq_apply_mul, hvalue, nearest_apply, nearest, hround, Int.cast_natCast]

/-! ## The operations on unpacked numbers -/

theorem rounded_zero (s : Sign) : Rounded (.zero s) 0 :=
  ⟨s, 0, -1074, ⟨by norm_num, le_rfl, .inr rfl⟩, rfl, nearest_zero.symm⟩

/-- Canonical numbers are not rounded. -/
theorem rounded_of_canonical (s : Sign) (h : Canonical m e) :
    Rounded (unpacked s m e) (rat (unpacked s m e)) :=
  ⟨s, m, e, h, rfl, (h.representable s).nearest_eq.symm⟩

theorem rounded_round (s : Sign) (hm : 0 < m) (e : ℤ) :
    Rounded (UnpackedFloat.round .binary64 s m e) (s.apply 1 * (m * (2 : ℚ) ^ e)) := by
  obtain ⟨k, hk⟩ : ∃ k : ℕ,
      (e - Format.binary64.targetExponent (totalExponent m e)).toNat = k := ⟨_, rfl⟩
  have hround : UnpackedFloat.round .binary64 s m e =
      roundWithAccuracy .binary64 s (m * 2 ^ k) (e - k) .exact := by
    rw [UnpackedFloat.round, decreaseExponent, hk, Nat.shiftLeft_eq]
  have hdigits : e - k ≤ -1074 ∨ 2 ^ 52 ≤ m * 2 ^ k := by
    rw [targetExponent_eq] at hk
    by_cases hlow : e - k ≤ -1074
    · exact .inl hlow
    · right
      calc 2 ^ 52 ≤ 2 ^ (m.log2 + k) := Nat.pow_le_pow_right two_pos (by omega)
        _ = 2 ^ m.log2 * 2 ^ k := pow_add 2 _ _
        _ ≤ m * 2 ^ k := Nat.mul_le_mul_right _ (Nat.log2_self_le hm.ne')
  have hvalue : ((m * 2 ^ k : ℕ) : ℚ) * (2 : ℚ) ^ (e - k) = m * (2 : ℚ) ^ e :=
    natCast_mul_pow_mul_zpow (sub_add_cancel e k)
  rw [hround, ← hvalue]
  exact rounded_roundWithAccuracy s (.exact _) (by positivity) hdigits

/-- A signed mantissa is rounded, whether it has too many digits or too few. -/
theorem rounded_normalize (n e : ℤ) :
    Rounded (UnpackedFloat.normalize .binary64 n e .positive) (n * (2 : ℚ) ^ e) := by
  rw [UnpackedFloat.normalize]
  obtain h | rfl | h := lt_trichotomy n 0
  · have hround := rounded_round .negative (by omega : 0 < (-n).toNat) e
    have hcast : (((-n).toNat : ℕ) : ℚ) = -n := by
      exact_mod_cast Int.toNat_of_nonneg (by omega : 0 ≤ -n)
    rw [hcast, Sign.apply, Int.cast_neg, Int.cast_one, neg_one_mul, ← neg_mul, neg_neg] at hround
    rw [compare_lt_iff_lt.2 h]
    exact hround
  · simpa using rounded_zero .positive
  · have hround := rounded_round .positive (by omega : 0 < n.toNat) e
    have hcast : ((n.toNat : ℕ) : ℚ) = n := by exact_mod_cast Int.toNat_of_nonneg h.le
    rw [hcast, Sign.apply, Int.cast_one, one_mul] at hround
    rw [compare_gt_iff_gt.2 h]
    exact hround

variable {u v : UnpackedFloat}

/-- The unpacked number of a finite number. -/
def IsCanonical (u : UnpackedFloat) : Prop :=
  ∃ s m e, Canonical m e ∧ u = unpacked s m e

theorem isCanonical_cases (h : IsCanonical u) :
    (∃ s, u = .zero s) ∨ ∃ s m e hm, Canonical m e ∧ u = .finite s m e hm := by
  obtain ⟨s, m, e, hcanonical, rfl⟩ := h
  obtain rfl | hm := m.eq_zero_or_pos
  · exact .inl ⟨s, rfl⟩
  · exact .inr ⟨s, m, e, hm, hcanonical, unpacked_of_pos hm⟩

theorem rat_finite (s : Sign) (hm : 0 < m) (e : ℤ) :
    rat (.finite s m e hm) = s.apply 1 * (m * (2 : ℚ) ^ e) := by
  rw [← unpacked_of_pos hm, rat_eq_apply_mul]

theorem rounded_finite (s : Sign) (hm : 0 < m) (h : Canonical m e) :
    Rounded (.finite s m e hm) (rat (.finite s m e hm)) := by
  rw [← unpacked_of_pos hm]
  exact rounded_of_canonical s h

theorem rounded_add (hu : IsCanonical u) (hv : IsCanonical v) :
    Rounded (UnpackedFloat.add .binary64 u v) (rat u + rat v) := by
  obtain ⟨s, rfl⟩ | ⟨s, m, e, hm, h, rfl⟩ := isCanonical_cases hu <;>
    obtain ⟨s', rfl⟩ | ⟨s', m', e', hm', h', rfl⟩ := isCanonical_cases hv
  · have hzero : rat (.zero s) + rat (.zero s') = 0 := add_zero 0
    rw [hzero, UnpackedFloat.add]
    split <;> exact rounded_zero _
  · have hzero : rat (.zero s) + rat (.finite s' m' e' hm') = rat (.finite s' m' e' hm') :=
      zero_add _
    rw [hzero]
    exact rounded_finite s' hm' h'
  · have hzero : rat (.finite s m e hm) + rat (.zero s') = rat (.finite s m e hm) := add_zero _
    rw [hzero]
    exact rounded_finite s hm h
  · obtain ⟨k, hk⟩ : ∃ k : ℕ, (e - min e e').toNat = k := ⟨_, rfl⟩
    obtain ⟨k', hk'⟩ : ∃ k : ℕ, (e' - min e e').toNat = k := ⟨_, rfl⟩
    have hadd : UnpackedFloat.add .binary64 (.finite s m e hm) (.finite s' m' e' hm') =
        UnpackedFloat.normalize .binary64
          (s.apply ((m * 2 ^ k : ℕ) : ℤ) + s'.apply ((m' * 2 ^ k' : ℕ) : ℤ)) (min e e')
          .positive := by
      rw [UnpackedFloat.add]
      simp only [decreaseExponent, hk, hk', Nat.shiftLeft_eq]
    have hshift : ((m * 2 ^ k : ℕ) : ℚ) * (2 : ℚ) ^ min e e' = m * (2 : ℚ) ^ e :=
      natCast_mul_pow_mul_zpow (by omega)
    have hshift' : ((m' * 2 ^ k' : ℕ) : ℚ) * (2 : ℚ) ^ min e e' = m' * (2 : ℚ) ^ e' :=
      natCast_mul_pow_mul_zpow (by omega)
    have hvalue : ((s.apply ((m * 2 ^ k : ℕ) : ℤ) + s'.apply ((m' * 2 ^ k' : ℕ) : ℤ) : ℤ) : ℚ) *
        (2 : ℚ) ^ min e e' = rat (.finite s m e hm) + rat (.finite s' m' e' hm') := by
      rw [Int.cast_add, apply_eq, apply_eq, rat_finite, rat_finite, add_mul, mul_assoc, mul_assoc,
        hshift, hshift']
    rw [hadd, ← hvalue]
    exact rounded_normalize _ _

theorem apply_mul (s s' : Sign) : (((s * s').apply 1 : ℤ) : ℚ) = s.apply 1 * s'.apply 1 := by
  have hint : (s * s').apply 1 = s.apply 1 * s'.apply 1 := by cases s <;> cases s' <;> rfl
  exact_mod_cast hint

theorem apply_div (s s' : Sign) : (((s / s').apply 1 : ℤ) : ℚ) = s.apply 1 / s'.apply 1 := by
  have hmul : (((s / s').apply 1 : ℤ) : ℚ) = s.apply 1 * s'.apply 1 := apply_mul s s'
  rw [hmul, div_eq_mul_inv, inv_apply_one]

theorem rounded_mul (hu : IsCanonical u) (hv : IsCanonical v) :
    Rounded (UnpackedFloat.mul .binary64 u v) (rat u * rat v) := by
  obtain ⟨s, rfl⟩ | ⟨s, m, e, hm, h, rfl⟩ := isCanonical_cases hu <;>
    obtain ⟨s', rfl⟩ | ⟨s', m', e', hm', h', rfl⟩ := isCanonical_cases hv
  · have hzero : rat (.zero s) * rat (.zero s') = 0 := mul_zero 0
    rw [hzero]
    exact rounded_zero (s * s')
  · have hzero : rat (.zero s) * rat (.finite s' m' e' hm') = 0 := zero_mul _
    rw [hzero]
    exact rounded_zero (s * s')
  · have hzero : rat (.finite s m e hm) * rat (.zero s') = 0 := mul_zero _
    rw [hzero]
    exact rounded_zero (s * s')
  · have hdigits : e + e' ≤ -1074 ∨ 2 ^ 52 ≤ m * m' := by
      obtain hnormal | rfl := h.normal_or_lowest
      · exact .inr (hnormal.trans (Nat.le_mul_of_pos_right m hm'))
      · obtain hnormal | rfl := h'.normal_or_lowest
        · exact .inr (hnormal.trans (Nat.le_mul_of_pos_left m' hm))
        · exact .inl (by norm_num)
    have hvalue : rat (.finite s m e hm) * rat (.finite s' m' e' hm') =
        (s * s').apply 1 * ((m * m' : ℕ) * (2 : ℚ) ^ (e + e')) := by
      rw [rat_finite, rat_finite, apply_mul, zpow_add₀ two_ne_zero]
      push_cast
      ring
    rw [hvalue]
    exact rounded_roundWithAccuracy (s * s') (.exact _) (by positivity) hdigits

/-- A quotient is computed with enough digits. -/
theorem divCore_digits (hm : 0 < m) {m' : ℕ} {e' t : ℤ} (hm' : 0 < m')
    (ht : t = min (e - e')
      (Format.binary64.targetExponent (totalExponent m e - totalExponent m' e'))) :
    t ≤ -1074 ∨ 2 ^ 52 ≤ m * 2 ^ (e - e' - t).toNat / m' := by
  have htarget : Format.binary64.targetExponent (totalExponent m e - totalExponent m' e') =
      max ((m.log2 : ℤ) + 1 + e - (m'.log2 + 1 + e') - 53) (-1074) := rfl
  by_cases hlow : t ≤ -1074
  · exact .inl hlow
  · right
    rw [Nat.le_div_iff_mul_le hm']
    calc 2 ^ 52 * m' ≤ 2 ^ 52 * 2 ^ (m'.log2 + 1) := Nat.mul_le_mul_left _ Nat.lt_log2_self.le
      _ = 2 ^ (52 + (m'.log2 + 1)) := (pow_add 2 _ _).symm
      _ ≤ 2 ^ (m.log2 + (e - e' - t).toNat) := Nat.pow_le_pow_right two_pos (by omega)
      _ = 2 ^ m.log2 * 2 ^ (e - e' - t).toNat := pow_add 2 _ _
      _ ≤ m * 2 ^ (e - e' - t).toNat := Nat.mul_le_mul_right _ (Nat.log2_self_le hm.ne')

theorem rounded_div (hu : IsCanonical u) (hv : IsCanonical v) (hne : rat v ≠ 0) :
    Rounded (UnpackedFloat.div .binary64 u v) (rat u / rat v) := by
  obtain ⟨s', rfl⟩ | ⟨s', m', e', hm', h', rfl⟩ := isCanonical_cases hv
  · exact absurd rfl hne
  obtain ⟨s, rfl⟩ | ⟨s, m, e, hm, h, rfl⟩ := isCanonical_cases hu
  · have hzero : rat (.zero s) / rat (.finite s' m' e' hm') = 0 := zero_div _
    rw [hzero]
    exact rounded_zero (s / s')
  · obtain ⟨t, ht⟩ : ∃ t, t = min (e - e')
        (Format.binary64.targetExponent (totalExponent m e - totalExponent m' e')) := ⟨_, rfl⟩
    obtain ⟨k, hk⟩ : ∃ k : ℕ, (e - e' - t).toNat = k := ⟨_, rfl⟩
    have hdigits := divCore_digits hm hm' ht
    rw [hk] at hdigits
    have hdiv : UnpackedFloat.div .binary64 (.finite s m e hm) (.finite s' m' e' hm') =
        roundWithAccuracy .binary64 (s / s') (m * 2 ^ k / m') t
          (accuracyOfFraction (m * 2 ^ k % m') m') := by
      rw [UnpackedFloat.div]
      simp only [divCore, ← ht, hk, Nat.shiftLeft_eq]
    have hvalue : rat (.finite s m e hm) / rat (.finite s' m' e' hm') =
        (s / s').apply 1 * (((m * 2 ^ k : ℕ) : ℚ) / m' * (2 : ℚ) ^ t) := by
      have hshift : ((m * 2 ^ k : ℕ) : ℚ) * (2 : ℚ) ^ t = m * (2 : ℚ) ^ (e - e') :=
        natCast_mul_pow_mul_zpow (by omega)
      have hquotient : m * (2 : ℚ) ^ e / (m' * (2 : ℚ) ^ e') =
          ((m * 2 ^ k : ℕ) : ℚ) / m' * (2 : ℚ) ^ t := by
        rw [div_mul_eq_mul_div, hshift, zpow_sub₀ two_ne_zero]
        field_simp
      rw [rat_finite, rat_finite, apply_div, mul_div_mul_comm, hquotient]
    rw [hdiv, hvalue]
    exact rounded_roundWithAccuracy (s / s') (.of_division _ hm') (by positivity) hdigits

/-! ## The operations on numbers -/

/-- A number is the one nearest to a rational, or infinite if that is too large. -/
structure Rounds (z : Float) (v : ℚ) : Prop where
  isFinite_iff : z.isFinite = true ↔ |nearest v| < 2 ^ 1024
  value_eq : z.isFinite = true → value z = nearest v

theorem rounds_of_word {z : Float} {v : ℚ} {u : UnpackedFloat}
    (hword : word z = UnpackedFloat.pack .binary64 u) (h : Rounded u v) : Rounds z v := by
  obtain ⟨s, m, e, hcanonical, rfl, hvalue⟩ := h
  have hfinite : z.isFinite = true ↔ e ≤ 971 := by
    rw [isFinite_eq, hword]
    constructor
    · intro hfinite
      by_contra hlarge
      have hm : 0 < m := by
        have hnormal := hcanonical.normal_or_lowest
        omega
      rw [pack_of_lt hm (not_le.1 hlarge), unpack_packedInfinity] at hfinite
      cases hfinite
    · intro he
      rw [unpack_pack hcanonical he]
      exact isFinite_unpacked s m e
  constructor
  · rw [hfinite, ← hvalue, abs_rat_unpacked, hcanonical.lt_iff]
  · intro h
    rw [value, hword, unpack_pack hcanonical (hfinite.1 h), hvalue]

variable {x y : Float}

theorem isCanonical_unpack (hx : x.isFinite = true) :
    IsCanonical (UnpackedFloat.unpack .binary64 (word x)) := by
  obtain ⟨s, m, e, h, -, heq⟩ := exists_unpack hx
  exact ⟨s, m, e, h, heq⟩

/-- **A sum is correctly rounded.** -/
theorem rounds_add (hx : x.isFinite = true) (hy : y.isFinite = true) :
    Rounds (x + y) (value x + value y) :=
  rounds_of_word rfl (rounded_add (isCanonical_unpack hx) (isCanonical_unpack hy))

/-- A difference is the sum with the opposite. -/
theorem sub_eq_add (hy : y.isFinite = true) : x - y = x + -y := by
  have hneg (u v : UnpackedFloat) :
      UnpackedFloat.sub .binary64 u v = UnpackedFloat.add .binary64 u v.neg := by
    rcases u with s | _ | s | ⟨s, m, e, hm⟩ <;> rcases v with s' | _ | s' | ⟨s', m', e', hm'⟩ <;>
      try rfl
    have happly (n : ℤ) : (-s').apply n = -s'.apply n := by
      cases s' with
      | negative => exact (neg_neg n).symm
      | positive => rfl
    simp only [UnpackedFloat.sub, UnpackedFloat.add, UnpackedFloat.neg, decreaseExponent, happly,
      sub_eq_add_neg]
  apply eq_of_word_eq
  rw [word_sub, hneg, ← unpack_word_neg (isNaN_of_isFinite hy)]
  rfl

/-- **A difference is correctly rounded.** -/
theorem rounds_sub (hx : x.isFinite = true) (hy : y.isFinite = true) :
    Rounds (x - y) (value x - value y) := by
  have hnan := isNaN_of_isFinite hy
  rw [sub_eq_add hy, sub_eq_add_neg, ← value_neg hnan]
  exact rounds_add hx ((isFinite_neg hnan).trans hy)

/-- **A product is correctly rounded.** -/
theorem rounds_mul (hx : x.isFinite = true) (hy : y.isFinite = true) :
    Rounds (x * y) (value x * value y) :=
  rounds_of_word rfl (rounded_mul (isCanonical_unpack hx) (isCanonical_unpack hy))

/-- **A quotient is correctly rounded.** -/
theorem rounds_div (hx : x.isFinite = true) (hy : y.isFinite = true) (hne : value y ≠ 0) :
    Rounds (x / y) (value x / value y) :=
  rounds_of_word rfl (rounded_div (isCanonical_unpack hx) (isCanonical_unpack hy) hne)

end LogDensity.Binary64
