import Mathlib

/-!
# Rounding to the nearest binary64 number

If there were no largest one, the binary64 numbers would be the rationals `m * 2 ^ e` with
`|m| ≤ 2 ^ 53` and `-1074 ≤ e`: those are `Representable` here. A rational `x` has a last place
`2 ^ lastPlace x`, and `nearest x` is the multiple of it that is closest to `x`, of two the even
one.

What the other modules use: a representable bound of `x` is a bound of `nearest x` (`nearest_le`,
`le_nearest`), so a representable number is its own nearest one; `nearest x` is at most half a last
place away (`abs_sub_nearest_le`); and numbers within a factor of two have a representable
difference (`Representable.sub`).
-/

namespace LogDensity.Binary64

variable {x y r : ℚ} {n : ℤ}

/-! ## Integers -/

/-- The integer closest to a rational, of two the even one. -/
def roundEven (x : ℚ) : ℤ :=
  if Int.fract x < 1 / 2 then ⌊x⌋ else if Int.fract x = 1 / 2 then ⌊x⌋ + ⌊x⌋ % 2 else ⌊x⌋ + 1

theorem roundEven_spec (x : ℚ) :
    |x - roundEven x| < 1 / 2 ∨ |x - roundEven x| = 1 / 2 ∧ Even (roundEven x) := by
  have hx : x = ⌊x⌋ + Int.fract x := (Int.floor_add_fract x).symm
  have hnonneg : 0 ≤ Int.fract x := Int.fract_nonneg x
  have hlt : Int.fract x < 1 := Int.fract_lt_one x
  rw [roundEven]
  split_ifs with hlow htie
  · left
    rw [abs_lt]
    constructor <;> linarith
  · right
    obtain heven | hodd := Int.even_or_odd ⌊x⌋
    · rw [Int.even_iff.1 heven, add_zero, abs_of_nonneg (by linarith)]
      exact ⟨by linarith, heven⟩
    · rw [Int.odd_iff.1 hodd]
      push_cast
      rw [abs_of_nonpos (by linarith)]
      exact ⟨by linarith, hodd.add_one⟩
  · left
    have hhigh : 1 / 2 < Int.fract x := lt_of_le_of_ne (not_lt.1 hlow) (Ne.symm htie)
    push_cast
    rw [abs_lt]
    constructor <;> linarith

theorem abs_sub_roundEven_le (x : ℚ) : |x - roundEven x| ≤ 1 / 2 :=
  (roundEven_spec x).elim le_of_lt fun h => h.1.le

/-- Two integers are not both closest to a number, unless one of them is odd. -/
theorem roundEven_eq_iff : roundEven x = n ↔ |x - n| < 1 / 2 ∨ |x - n| = 1 / 2 ∧ Even n := by
  refine ⟨fun h => h ▸ roundEven_spec x, fun hn => ?_⟩
  have hspec := roundEven_spec x
  have hclose : |x - n| ≤ 1 / 2 := hn.elim le_of_lt fun h => h.1.le
  have hround := abs_le.1 (abs_sub_roundEven_le x)
  have hle := abs_le.1 hclose
  have hlow : (n : ℚ) - 1 ≤ roundEven x := by linarith
  have hhigh : (roundEven x : ℚ) ≤ n + 1 := by linarith
  by_contra hne
  obtain heq | heq : roundEven x = n - 1 ∨ roundEven x = n + 1 := by
    have h₁ : n - 1 ≤ roundEven x := by exact_mod_cast hlow
    have h₂ : roundEven x ≤ n + 1 := by exact_mod_cast hhigh
    omega
  all_goals
    -- Next to each other, the two are half away, so both are even.
    rw [heq] at hspec hround
    push_cast at hspec hround
    obtain hlt | ⟨-, heven⟩ := hspec
    · linarith [abs_lt.1 hlt]
    · obtain hlt | ⟨-, heven'⟩ := hn
      · linarith [abs_lt.1 hlt]
      · rw [Int.even_iff] at heven heven'
        omega

theorem roundEven_eq_of_even (h : |x - n| ≤ 1 / 2) (heven : Even n) : roundEven x = n :=
  roundEven_eq_iff.2 (h.lt_or_eq.imp_right fun h => ⟨h, heven⟩)

@[simp] theorem roundEven_intCast (n : ℤ) : roundEven n = n :=
  roundEven_eq_iff.2 (.inl (by norm_num))

theorem roundEven_neg (x : ℚ) : roundEven (-x) = -roundEven x := by
  have habs : |-x - (-roundEven x : ℤ)| = |x - roundEven x| := by
    rw [← abs_neg]
    congr 1
    push_cast
    ring
  rw [roundEven_eq_iff, habs, even_neg]
  exact roundEven_spec x

theorem roundEven_le (h : x ≤ n) : roundEven x ≤ n := by
  by_contra hlt
  have hnext : (n : ℚ) + 1 ≤ roundEven x := by exact_mod_cast not_le.1 hlt
  have hclose := abs_le.1 (abs_sub_roundEven_le x)
  linarith

theorem le_roundEven (h : n ≤ x) : n ≤ roundEven x := by
  have hneg : roundEven (-x) ≤ -n := roundEven_le (by push_cast; linarith)
  rw [roundEven_neg] at hneg
  omega

/-! ## The last place -/

/-- The exponent of the last place of a number, as low as it can be for small ones. -/
def lastPlace (x : ℚ) : ℤ :=
  max (Int.log 2 |x| - 52) (-1074)

theorem le_lastPlace (x : ℚ) : -1074 ≤ lastPlace x :=
  le_max_right _ _

@[simp] theorem lastPlace_neg (x : ℚ) : lastPlace (-x) = lastPlace x := by
  rw [lastPlace, lastPlace, abs_neg]

theorem lastPlace_le_lastPlace (hx : x ≠ 0) (h : |x| ≤ |y|) : lastPlace x ≤ lastPlace y :=
  max_le_max (sub_le_sub_right (Int.log_mono_right (abs_pos.2 hx) h) 52) le_rfl

/-- A mantissa that is a power of two only moves the exponent. -/
theorem pow_mul_zpow (n : ℕ) (e : ℤ) : (2 : ℚ) ^ n * (2 : ℚ) ^ e = (2 : ℚ) ^ (n + e) := by
  rw [zpow_add₀ two_ne_zero, zpow_natCast]

theorem pow_succ_mul_zpow (n : ℕ) (e : ℤ) :
    (2 : ℚ) ^ (n + 1) * (2 : ℚ) ^ e = (2 : ℚ) ^ n * (2 : ℚ) ^ (e + 1) := by
  rw [zpow_add_one₀ two_ne_zero]
  ring

/-- A mantissa that is moved up by as many digits as its exponent is lowered. -/
theorem natCast_mul_pow_mul_zpow {m k : ℕ} {e e' : ℤ} (h : e' + k = e) :
    ((m * 2 ^ k : ℕ) : ℚ) * (2 : ℚ) ^ e' = m * (2 : ℚ) ^ e := by
  push_cast
  rw [mul_assoc, pow_mul_zpow, add_comm, h]

theorem abs_lt_zpow_lastPlace (x : ℚ) : |x| < 2 ^ 53 * (2 : ℚ) ^ lastPlace x := by
  have hlog : |x| < (2 : ℚ) ^ (Int.log 2 |x| + 1) := Int.lt_zpow_succ_log_self (by norm_num) _
  calc |x| < (2 : ℚ) ^ (Int.log 2 |x| + 1) := hlog
    _ ≤ (2 : ℚ) ^ (53 + lastPlace x) := by
      apply zpow_le_zpow_right₀ (by norm_num)
      have := le_max_left (Int.log 2 |x| - 52) (-1074)
      rw [lastPlace]
      omega
    _ = 2 ^ 53 * (2 : ℚ) ^ lastPlace x := (pow_mul_zpow 53 _).symm

/-- Where the last place is not the lowest one, a number has 53 digits. -/
theorem zpow_lastPlace_le (hx : x ≠ 0) (h : -1074 < lastPlace x) :
    2 ^ 52 * (2 : ℚ) ^ lastPlace x ≤ |x| := by
  have hplace : lastPlace x = Int.log 2 |x| - 52 := by
    rw [lastPlace] at h ⊢
    omega
  calc 2 ^ 52 * (2 : ℚ) ^ lastPlace x = (2 : ℚ) ^ (52 + lastPlace x) := pow_mul_zpow 52 _
    _ = (2 : ℚ) ^ Int.log 2 |x| := by
      rw [hplace]
      ring_nf
    _ ≤ |x| := Int.zpow_log_le_self (by norm_num) (abs_pos.2 hx)

/-- The last place, read off two bounds. -/
theorem lastPlace_eq {e : ℤ} (he : -1074 ≤ e) (hlt : |x| < 2 ^ 53 * (2 : ℚ) ^ e)
    (hle : 2 ^ 52 * (2 : ℚ) ^ e ≤ |x| ∨ x ≠ 0 ∧ e = -1074) : lastPlace x = e := by
  have hx : x ≠ 0 := by
    obtain hle | ⟨hx, -⟩ := hle
    · exact abs_pos.1 (lt_of_lt_of_le (by positivity) hle)
    · exact hx
  have hpow : (2 ^ 53 : ℚ) * (2 : ℚ) ^ e = (2 : ℚ) ^ (53 + e) := pow_mul_zpow 53 e
  have hlog : Int.log 2 |x| < 53 + e := by
    rw [← Int.lt_zpow_iff_log_lt (by norm_num) (abs_pos.2 hx)]
    push_cast
    rwa [← hpow]
  obtain hle | ⟨-, rfl⟩ := hle
  · have hpow' : (2 ^ 52 : ℚ) * (2 : ℚ) ^ e = (2 : ℚ) ^ (52 + e) := pow_mul_zpow 52 e
    have hlog' : 52 + e ≤ Int.log 2 |x| := by
      rw [← Int.zpow_le_iff_le_log (by norm_num) (abs_pos.2 hx)]
      push_cast
      rwa [← hpow']
    rw [lastPlace]
    omega
  · rw [lastPlace]
    omega

/-! ## Representable numbers -/

/-- A binary64 number, if there were no largest one. -/
def Representable (x : ℚ) : Prop :=
  ∃ m e : ℤ, |m| ≤ 2 ^ 53 ∧ -1074 ≤ e ∧ x = m * (2 : ℚ) ^ e

namespace Representable

theorem neg (h : Representable x) : Representable (-x) := by
  obtain ⟨m, e, hm, he, rfl⟩ := h
  exact ⟨-m, e, by rwa [abs_neg], he, by push_cast; ring⟩

theorem intCast (h : |n| ≤ 2 ^ 53) : Representable n :=
  ⟨n, 0, h, by norm_num, by simp⟩

theorem zero : Representable 0 :=
  ⟨0, 0, by norm_num, by norm_num, by simp⟩

/-- Doubling only moves the exponent. -/
theorem two_mul (h : Representable x) : Representable (2 * x) := by
  obtain ⟨m, e, hm, he, rfl⟩ := h
  refine ⟨m, e + 1, hm, by omega, ?_⟩
  rw [zpow_add_one₀ two_ne_zero]
  ring

/-- A power of two times an integer that is at most as large as a mantissa. -/
theorem of_abs_le {e : ℤ} (he : -1074 ≤ e) (hx : x = n * (2 : ℚ) ^ e)
    (h : |x| ≤ 2 ^ 53 * (2 : ℚ) ^ e) : Representable x := by
  refine ⟨n, e, ?_, he, hx⟩
  have hpos : (0 : ℚ) < (2 : ℚ) ^ e := by positivity
  rw [hx, abs_mul, abs_of_pos hpos] at h
  exact_mod_cast le_of_mul_le_mul_right h hpos

/-- A multiple of a power of two is one of any lower power. -/
theorem multiple_of_le {m e e' : ℤ} (h : e' ≤ e) :
    (m : ℚ) * (2 : ℚ) ^ e = (m * 2 ^ (e - e').toNat : ℤ) * (2 : ℚ) ^ e' := by
  have hexp : ((e - e').toNat : ℤ) = e - e' := Int.toNat_of_nonneg (by omega)
  push_cast
  rw [mul_assoc, ← zpow_natCast, hexp, ← zpow_add₀ two_ne_zero, sub_add_cancel]

/-- The difference of numbers within a factor of two is representable. -/
theorem sub (hx : Representable x) (hy : Representable y) (hle : y ≤ x) (hdouble : x ≤ 2 * y) :
    Representable (x - y) := by
  obtain ⟨m, e, hm, he, hxm⟩ := hx
  obtain ⟨n, f, hn, hf, hyn⟩ := hy
  have hbound {k g : ℤ} (hk : |k| ≤ 2 ^ 53) (h : x - y ≤ (k : ℚ) * (2 : ℚ) ^ g) :
      |x - y| ≤ 2 ^ 53 * (2 : ℚ) ^ g := by
    rw [abs_of_nonneg (by linarith)]
    refine h.trans (mul_le_mul_of_nonneg_right ?_ (by positivity))
    exact_mod_cast (le_abs_self k).trans hk
  obtain hef | hfe := le_total e f
  · refine of_abs_le (n := m - n * 2 ^ (f - e).toNat) he ?_ (hbound hm ?_)
    · rw [Int.cast_sub, sub_mul, ← multiple_of_le hef, ← hxm, ← hyn]
    · linarith
  · refine of_abs_le (n := m * 2 ^ (e - f).toNat - n) hf ?_ (hbound hn ?_)
    · rw [Int.cast_sub, sub_mul, ← multiple_of_le hfe, ← hxm, ← hyn]
    · linarith

/-- A representable number is a multiple of the last place of any number that is at least as
close to zero, or a power of two lies between. -/
theorem multiple_or_between (hr : Representable r) (hx : x ≠ 0) :
    (∃ k : ℤ, r = k * (2 : ℚ) ^ lastPlace x) ∨
      ∃ k : ℤ, |r| ≤ k * (2 : ℚ) ^ lastPlace x ∧ k * (2 : ℚ) ^ lastPlace x ≤ |x| := by
  obtain ⟨m, e, hm, he, rfl⟩ := hr
  obtain hle | hlt := le_or_gt (lastPlace x) e
  · exact .inl ⟨_, multiple_of_le hle⟩
  · refine .inr ⟨2 ^ 52, ?_, ?_⟩
    · have hmq : (|m| : ℚ) ≤ 2 ^ 53 := by exact_mod_cast hm
      calc |(m : ℚ) * (2 : ℚ) ^ e| = |(m : ℚ)| * (2 : ℚ) ^ e := by
            rw [abs_mul, abs_of_pos (by positivity : (0 : ℚ) < (2 : ℚ) ^ e)]
        _ ≤ 2 ^ 53 * (2 : ℚ) ^ e := mul_le_mul_of_nonneg_right hmq (by positivity)
        _ = 2 ^ 52 * (2 : ℚ) ^ (e + 1) := pow_succ_mul_zpow 52 e
        _ ≤ ((2 ^ 52 : ℤ) : ℚ) * (2 : ℚ) ^ lastPlace x := by
          push_cast
          exact mul_le_mul_of_nonneg_left (zpow_le_zpow_right₀ (by norm_num) hlt) (by norm_num)
    · push_cast
      exact zpow_lastPlace_le hx (by omega)

end Representable

/-! ## The nearest number -/

/-- The representable number closest to a rational, of two the one with the even mantissa. -/
def nearest (x : ℚ) : ℚ :=
  roundEven (x / (2 : ℚ) ^ lastPlace x) * (2 : ℚ) ^ lastPlace x

theorem nearest_neg (x : ℚ) : nearest (-x) = -nearest x := by
  rw [nearest, nearest, lastPlace_neg, neg_div, roundEven_neg]
  push_cast
  ring

@[simp] theorem nearest_zero : nearest 0 = 0 := by
  have hround : roundEven 0 = 0 := roundEven_intCast 0
  rw [nearest, zero_div, hround, Int.cast_zero, zero_mul]

/-- A rational is at most half a last place away from its nearest number. -/
theorem abs_sub_nearest_le (x : ℚ) : |x - nearest x| ≤ (2 : ℚ) ^ lastPlace x / 2 := by
  have hpos : (0 : ℚ) < (2 : ℚ) ^ lastPlace x := by positivity
  have hscale : x - nearest x =
      (x / (2 : ℚ) ^ lastPlace x - roundEven (x / (2 : ℚ) ^ lastPlace x)) *
        (2 : ℚ) ^ lastPlace x := by
    rw [sub_mul, div_mul_cancel₀ x hpos.ne', nearest]
  rw [hscale, abs_mul, abs_of_pos hpos]
  have hround := abs_sub_roundEven_le (x / (2 : ℚ) ^ lastPlace x)
  calc _ ≤ 1 / 2 * (2 : ℚ) ^ lastPlace x := mul_le_mul_of_nonneg_right hround hpos.le
    _ = (2 : ℚ) ^ lastPlace x / 2 := by ring

theorem nearest_le_of_multiple (h : x ≤ n * (2 : ℚ) ^ lastPlace x) :
    nearest x ≤ n * (2 : ℚ) ^ lastPlace x := by
  have hpos : (0 : ℚ) < (2 : ℚ) ^ lastPlace x := by positivity
  have hround : roundEven (x / (2 : ℚ) ^ lastPlace x) ≤ n := roundEven_le ((div_le_iff₀ hpos).2 h)
  exact mul_le_mul_of_nonneg_right (by exact_mod_cast hround) hpos.le

/-- Rounding does not pass a representable number. -/
theorem nearest_le (hr : Representable r) (h : x ≤ r) : nearest x ≤ r := by
  obtain rfl | hx := eq_or_ne x 0
  · rwa [nearest_zero]
  obtain ⟨k, rfl⟩ | ⟨k, hrk, hkx⟩ := hr.multiple_or_between hx
  · exact nearest_le_of_multiple h
  obtain hneg | hpos := hx.lt_or_gt
  · rw [abs_of_neg hneg] at hkx
    have hbelow : nearest x ≤ (-k : ℤ) * (2 : ℚ) ^ lastPlace x :=
      nearest_le_of_multiple (by push_cast; linarith)
    push_cast at hbelow
    linarith [neg_abs_le r]
  · rw [abs_of_pos hpos] at hkx
    have hbelow : nearest x ≤ k * (2 : ℚ) ^ lastPlace x :=
      nearest_le_of_multiple (h.trans ((le_abs_self r).trans hrk))
    linarith [le_abs_self r]

theorem le_nearest (hr : Representable r) (h : r ≤ x) : r ≤ nearest x := by
  have hneg : nearest (-x) ≤ -r := nearest_le hr.neg (neg_le_neg h)
  rw [nearest_neg] at hneg
  exact neg_le_neg_iff.1 hneg

theorem Representable.nearest_eq (h : Representable x) : nearest x = x :=
  le_antisymm (nearest_le h le_rfl) (le_nearest h le_rfl)

theorem representable_nearest (x : ℚ) : Representable (nearest x) := by
  refine ⟨_, _, ?_, le_lastPlace x, rfl⟩
  have hpos : (0 : ℚ) < (2 : ℚ) ^ lastPlace x := by positivity
  have hlt : |x / (2 : ℚ) ^ lastPlace x| < 2 ^ 53 := by
    rw [abs_div, abs_of_pos hpos, div_lt_iff₀ hpos]
    exact abs_lt_zpow_lastPlace x
  obtain ⟨hlow, hhigh⟩ := abs_lt.1 hlt
  rw [abs_le]
  exact ⟨le_roundEven (by push_cast; linarith), roundEven_le (by push_cast; linarith)⟩

theorem nearest_nonneg (h : 0 ≤ x) : 0 ≤ nearest x :=
  le_nearest .zero h

end LogDensity.Binary64
