import LogDensity.Proofs.Binary64.Arithmetic
import LogDensity.Proofs.Binary64.Parts
import LogDensity.Proofs.Tape.Recording
import LogDensity.Scalar.Datum
import Mathlib

/-!
# The remainder and its partial derivatives

The remainder of `a` and `b` is `a - q * b` for the whole part `q` of `a / b`, exactly. On that
piece its partial derivatives are `1` and `-q`, but what is recorded for `b` is read off the rounded
quotient: the whole part of the number nearest to `a / b`.

Below `2 ^ 52` the two whole parts differ exactly if the quotient is rounded up to the next integer
(`wholePart_nearest`), that is if the remainder is within half a last place of the quotient, times
the divisor, of the divisor. The partial derivative is that of the next piece then. From `2 ^ 52` on
the rounded quotient is an integer itself.
-/

namespace LogDensity

open Binary64

namespace Binary64

/-! ## The whole part of a rounded number -/

variable {x : ℚ}

theorem zpow_sub_one_eq (e : ℤ) : (2 : ℚ) ^ (e - 1) = (2 : ℚ) ^ e / 2 := by
  rw [zpow_sub_one₀ two_ne_zero, div_eq_mul_inv]

theorem lastPlace_neg_of_lt (h : |x| < 2 ^ 52) : lastPlace x ≤ -1 := by
  by_contra hnot
  have hx : x ≠ 0 := by
    rintro rfl
    simp [lastPlace] at hnot
  have hle := zpow_lastPlace_le hx (by omega)
  have hone : (1 : ℚ) ≤ (2 : ℚ) ^ lastPlace x := one_le_zpow₀ (by norm_num) (by omega)
  linarith

/-- Within half a last place below an integer, a number is rounded to the integer. -/
theorem nearest_eq_intCast {n : ℤ} (hplace : lastPlace x ≤ -1) (hle : x ≤ n)
    (hclose : n - x ≤ (2 : ℚ) ^ (lastPlace x - 1)) : nearest x = n := by
  have hpos : (0 : ℚ) < (2 : ℚ) ^ lastPlace x := by positivity
  obtain ⟨k, hk⟩ : ∃ k : ℕ, lastPlace x = -(k + 1) := ⟨(-lastPlace x - 1).toNat, by omega⟩
  -- In units of the last place, the integer is even.
  have hunits : (n : ℚ) = (2 * (n * 2 ^ k) : ℤ) * (2 : ℚ) ^ lastPlace x := by
    rw [hk, zpow_neg, zpow_add_one₀ two_ne_zero, zpow_natCast]
    push_cast
    field_simp
  rw [zpow_sub_one_eq] at hclose
  have hround : roundEven (x / (2 : ℚ) ^ lastPlace x) = 2 * (n * 2 ^ k) := by
    apply roundEven_eq_of_even _ (even_two_mul _)
    have hdivided : ((2 * (n * 2 ^ k) : ℤ) : ℚ) = n / (2 : ℚ) ^ lastPlace x :=
      eq_div_of_mul_eq hpos.ne' hunits.symm
    rw [hdivided, ← sub_div, abs_div, abs_of_pos hpos, abs_of_nonpos (by linarith),
      div_le_iff₀ hpos]
    linarith
  rw [nearest, hround, ← hunits]

theorem wholePart_nearest_of_nonneg (hnonneg : 0 ≤ x) (h : x < 2 ^ 52) :
    wholePart (nearest x) =
      if (2 : ℚ) ^ (lastPlace x - 1) < 1 - (x - ⌊x⌋) then ⌊x⌋ else ⌊x⌋ + 1 := by
  have hfloor : 0 ≤ ⌊x⌋ := Int.floor_nonneg.2 hnonneg
  have hle : (⌊x⌋ : ℚ) ≤ x := Int.floor_le x
  have hlt : x < ⌊x⌋ + 1 := Int.lt_floor_add_one x
  have hbound : ⌊x⌋ < 2 ^ 52 := by
    have hcast : (⌊x⌋ : ℚ) < 2 ^ 52 := hle.trans_lt h
    exact_mod_cast hcast
  have hplace : lastPlace x ≤ -1 := lastPlace_neg_of_lt (by rwa [abs_of_nonneg hnonneg])
  have hlow : (⌊x⌋ : ℚ) ≤ nearest x :=
    le_nearest (.intCast (by rw [abs_of_nonneg hfloor]; omega)) hle
  rw [wholePart_of_nonneg (nearest_nonneg hnonneg)]
  split
  · rename_i hroom
    -- Rounding moves the number by half a last place at most.
    rw [zpow_sub_one_eq] at hroom
    have hclose := (abs_le.1 (abs_sub_nearest_le x)).1
    rw [Int.floor_eq_iff]
    exact ⟨hlow, by linarith⟩
  · rename_i hroom
    have hnext : nearest x = (⌊x⌋ + 1 : ℤ) :=
      nearest_eq_intCast hplace (by push_cast; linarith) (by push_cast; linarith)
    rw [hnext, Int.floor_intCast]

/-- The whole part of a rounded number is that of the number, unless it is rounded to the next
integer away from zero. -/
theorem wholePart_nearest (h : |x| < 2 ^ 52) :
    wholePart (nearest x) =
      if (2 : ℚ) ^ (lastPlace x - 1) < 1 - |x - wholePart x| then wholePart x
      else wholePart x + SignType.sign x := by
  have hfract {z : ℚ} (hz : 0 ≤ z) : |z - wholePart z| = z - ⌊z⌋ := by
    rw [wholePart_of_nonneg hz, abs_of_nonneg (by linarith [Int.floor_le z])]
  obtain hneg | rfl | hpos := lt_trichotomy x 0
  · have hnonneg : 0 ≤ -x := by linarith
    have hrounded := wholePart_nearest_of_nonneg hnonneg (by rwa [← abs_of_neg hneg])
    rw [← hfract hnonneg, ← wholePart_of_nonneg hnonneg, nearest_neg, wholePart_neg, wholePart_neg,
      lastPlace_neg] at hrounded
    have habs : |-x - ((-wholePart x : ℤ) : ℚ)| = |x - wholePart x| := by
      rw [← abs_neg]
      congr 1
      push_cast
      ring
    rw [habs] at hrounded
    rw [sign_neg hneg, ← neg_inj, hrounded, SignType.coe_neg_one]
    split <;> ring
  · rw [nearest_zero, sign_zero]
    simp
  · have hrounded := wholePart_nearest_of_nonneg hpos.le (by rwa [← abs_of_pos hpos])
    rw [← hfract hpos.le, ← wholePart_of_nonneg hpos.le] at hrounded
    rw [hrounded, sign_pos hpos]
    rfl

/-- From `2 ^ 52` on, rounded numbers are integers. -/
theorem wholePart_nearest_of_le (h : 2 ^ 52 ≤ |x|) : wholePart (nearest x) = nearest x := by
  have hpos : 0 < |x| := lt_of_lt_of_le (by norm_num) h
  have hplace : 0 ≤ lastPlace x := by
    have hlog : 52 ≤ Int.log 2 |x| := by
      rw [← Int.zpow_le_iff_le_log (by norm_num) hpos]
      exact_mod_cast h
    rw [lastPlace]
    omega
  obtain ⟨k, hk⟩ := Int.eq_ofNat_of_zero_le hplace
  have hint : nearest x = (roundEven (x / (2 : ℚ) ^ lastPlace x) * 2 ^ k : ℤ) := by
    rw [nearest, hk]
    push_cast
    rfl
  rw [hint, wholePart_intCast]

end Binary64

/-! ## The recorded partial derivatives -/

namespace Datum

/-- The rational that a finite number stands for. -/
def rat (x : Datum) : ℚ :=
  Binary64.value x.value

/-- A number that stands for a rational. -/
def IsFinite (x : Datum) : Prop :=
  x.value.isFinite = true

instance (x : Datum) : Decidable x.IsFinite :=
  inferInstanceAs (Decidable (_ = _))

variable {x y : Datum}

theorem rat_eq_parts (hx : x.IsFinite) {negative : Bool} {m : ℕ} {e : ℤ}
    (hparts : parts x.value = ⟨negative, m, e⟩) :
    x.rat = (if negative then -1 else 1) * (m * (2 : ℚ) ^ e) := by
  rw [rat, value_eq_parts hx, hparts, apply_eq, mul_assoc]
  cases negative <;> simp [signOf, Float.Model.UnpackedFloat.Sign.apply]

/-- The remainder is exact. -/
theorem rat_rem (hx : x.IsFinite) (hy : y.IsFinite) (hne : y.rat ≠ 0) :
    (Binary.value .rem x y).IsFinite ∧
      (Binary.value .rem x y).rat = x.rat - wholePart (x.rat / y.rat) * y.rat :=
  value_remainder hx hy hne

/-- The partial derivative by the divisor is read off the rounded quotient. -/
theorem rat_slope_rem (hx : x.IsFinite) (hy : y.IsFinite) (hne : y.rat ≠ 0)
    (hquotient : (x / y).IsFinite) :
    (-Elementary.trunc (x / y) : Datum).IsFinite ∧
      (-Elementary.trunc (x / y) : Datum).rat = -wholePart (nearest (x.rat / y.rat)) := by
  have hslope : (-Elementary.trunc (x / y) : Datum).value = -trunc (x / y).value := rfl
  have hdiv : (x / y).value = x.value / y.value := rfl
  obtain ⟨hfinite, hvalue⟩ := value_trunc hquotient
  have hnan := isNaN_of_isFinite hfinite
  rw [IsFinite, rat, hslope, isFinite_neg hnan, value_neg hnan, hvalue, hdiv,
    (rounds_div hx hy hne).value_eq hquotient]
  exact ⟨hfinite, rfl⟩

/-- How far a remainder is from the divisor, in units of the divisor. -/
theorem lt_one_sub_iff {a b r u : ℚ} (hb : b ≠ 0) (hr : r = a - wholePart (a / b) * b) :
    u < 1 - |a / b - wholePart (a / b)| ↔ u * |b| < |b| - |r| := by
  have hpos : 0 < |b| := abs_pos.2 hb
  have hfract : |a / b - wholePart (a / b)| * |b| = |r| := by
    rw [← abs_mul, sub_mul, div_mul_cancel₀ _ hb, hr]
  rw [← mul_lt_mul_iff_left₀ hpos, sub_mul, one_mul, hfract]

end Datum

namespace Dual

variable {t : Tape Datum} {x y : Dual Datum}

/-- A remainder is recorded with one as the first partial derivative. -/
theorem binary_rem_eq (hx : x.Live t) (hy : y.Live t)
    (htracked : x.isConstant = false ∨ y.isConstant = false) :
    Dual.binary t .rem x y =
      (.ok ⟨Binary.value .rem x.value y.value, some ⟨t.size, t.nextSerial⟩⟩,
        { t with
          nodes := t.nodes.push (Tape.nodeOf
            (tracked [(x, 1), (y, -Elementary.trunc (x.value / y.value))]) t.nextSerial)
          nextSerial := t.nextSerial + 1 }) := by
  apply ofOperation_of_live
  · obtain h | h := htracked
    · obtain ⟨k, hk⟩ := Option.isSome_iff_exists.1 (Option.isNone_eq_false_iff.1 h)
      exact List.ne_nil_of_mem (mem_tracked.2 ⟨x, List.mem_cons_self, hk⟩)
    · obtain ⟨k, hk⟩ := Option.isSome_iff_exists.1 (Option.isNone_eq_false_iff.1 h)
      exact List.ne_nil_of_mem
        (mem_tracked.2 ⟨y, List.mem_cons_of_mem _ List.mem_cons_self, hk⟩)
  · simp only [List.forall_mem_cons]
    exact ⟨hx, hy, fun _ h => nomatch h⟩

/-- **What is recorded of a remainder.** Its value is `a - q * b` for the whole part `q` of `a / b`,
and its partial derivative by `a` is one. That by `b` is `-q` exactly if the remainder is not too
close to the divisor; otherwise `a / b` was rounded to the next integer, and it is the opposite of
that one. Where rounded quotients are integers, it is the opposite of the rounded quotient. -/
theorem binary_rem (hx : x.Live t) (hy : y.Live t)
    (htracked : x.isConstant = false ∨ y.isConstant = false)
    (hfx : x.value.IsFinite) (hfy : y.value.IsFinite) (hne : y.value.rat ≠ 0)
    (hquotient : (x.value / y.value).IsFinite) :
    let a := x.value.rat
    let b := y.value.rat
    ∃ z q t', Dual.binary t .rem x y = (.ok z, t') ∧
      z.handle = some ⟨t.size, t.nextSerial⟩ ∧
      t'.nodes = t.nodes.push (Tape.nodeOf (tracked [(x, 1), (y, q)]) t.nextSerial) ∧
      z.value.IsFinite ∧ q.IsFinite ∧ z.value.rat = a - wholePart (a / b) * b ∧
      if |a / b| < 2 ^ 52 then
        if (2 : ℚ) ^ (lastPlace (a / b) - 1) * |b| < |b| - |z.value.rat| then
          q.rat = -wholePart (a / b)
        else q.rat = -(wholePart (a / b) + SignType.sign (a / b) : ℤ)
      else q.rat = -nearest (a / b) := by
  intro a b
  obtain ⟨hfz, hz⟩ := Datum.rat_rem hfx hfy hne
  obtain ⟨hfq, hslope⟩ := Datum.rat_slope_rem hfx hfy hne hquotient
  refine ⟨_, _, _, binary_rem_eq hx hy htracked, rfl, rfl, hfz, hfq, hz, ?_⟩
  have hroom := Datum.lt_one_sub_iff (u := (2 : ℚ) ^ (lastPlace (a / b) - 1)) hne hz
  split
  · rename_i hsmall
    rw [hslope, wholePart_nearest hsmall]
    split
    · rename_i h
      rw [if_pos (hroom.2 h)]
    · rename_i h
      rw [if_neg (mt hroom.1 h)]
  · rename_i hlarge
    rw [hslope, wholePart_nearest_of_le (not_lt.1 hlarge)]

/-- Two variables on a tape of their own. -/
def twoVariables (x y : Datum) : Tape Datum × Dual Datum × Dual Datum :=
  ((Tape.leaves {} [x, y]).2, ⟨x, some ⟨0, 0⟩⟩, ⟨y, some ⟨1, 1⟩⟩)

theorem binary_rem_sevenHalves :
    let (t, x, y) := twoVariables (.ofFloat 7) (.ofFloat 2)
    x.Live t ∧ y.Live t ∧ ∃ z q t', Dual.binary t .rem x y = (.ok z, t') ∧
      t'.nodes = t.nodes.push (Tape.nodeOf (tracked [(x, 1), (y, q)]) t.nextSerial) ∧
      z.value.rat = 1 ∧ q.rat = -3 := by
  set x : Dual Datum := ⟨.ofFloat 7, some ⟨0, 0⟩⟩
  set y : Dual Datum := ⟨.ofFloat 2, some ⟨1, 1⟩⟩
  set t : Tape Datum := (Tape.leaves {} [.ofFloat 7, .ofFloat 2]).2
  have hx : x.Live t := by decide
  have hy : y.Live t := by decide
  have hfx : x.value.IsFinite := by decide +kernel
  have hfy : y.value.IsFinite := by decide +kernel
  have hquotient : (x.value / y.value).IsFinite := by decide +kernel
  have ha : x.value.rat = 7 := by
    have hparts : parts x.value.value = ⟨false, 7 * 2 ^ 50, -50⟩ := by decide +kernel
    rw [Datum.rat_eq_parts hfx hparts]
    norm_num
  have hb : y.value.rat = 2 := by
    have hparts : parts y.value.value = ⟨false, 2 ^ 52, -51⟩ := by decide +kernel
    rw [Datum.rat_eq_parts hfy hparts]
    norm_num
  obtain ⟨z, q, t', hbinary, -, hnodes, -, -, hz, hq⟩ :=
    binary_rem hx hy (.inl rfl) hfx hfy (by rw [hb]; norm_num) hquotient
  have hwhole : wholePart ((7 : ℚ) / 2) = 3 := by
    rw [wholePart_of_nonneg (by norm_num)]
    norm_num
  have hplace : lastPlace ((7 : ℚ) / 2) = -51 :=
    lastPlace_eq (by norm_num) (by norm_num [abs_of_pos]) (.inl (by norm_num [abs_of_pos]))
  rw [ha, hb, hwhole] at hz hq
  have hz' : z.value.rat = 1 := by
    rw [hz]
    norm_num
  rw [hplace, hz', if_pos (by norm_num [abs_of_pos]), if_pos (by norm_num)] at hq
  exact ⟨hx, hy, z, q, t', hbinary, hnodes, hz', by exact_mod_cast hq⟩

/-- The gradient of a remainder is that of the linear piece that its value lies on. -/
def DeliversPiece (t : Tape Datum) (x y : Dual Datum) : Prop :=
  ∃ z t' g h, Dual.binary t .rem x y = (.ok z, t') ∧ t'.gradient 0 z [x, y] = .ok [g, h] ∧
    ∃ k : ℤ, z.value.rat = x.value.rat - k * y.value.rat ∧ g.rat = 1 ∧ h.rat = -k

/-- The binary64 number nearest to a tenth is a little more than that, so it goes into one only nine
times; but the quotient is rounded to ten. -/
theorem not_deliversPiece :
    let (t, x, y) := twoVariables (.ofFloat 1) (.ofFloat 0.1)
    ¬ DeliversPiece t x y := by
  set x : Dual Datum := ⟨.ofFloat 1, some ⟨0, 0⟩⟩
  set y : Dual Datum := ⟨.ofFloat 0.1, some ⟨1, 1⟩⟩
  set t : Tape Datum := (Tape.leaves {} [.ofFloat 1, .ofFloat 0.1]).2
  have hfx : x.value.IsFinite := by decide +kernel
  have hfy : y.value.IsFinite := by decide +kernel
  have ha : x.value.rat = 1 := by
    have hparts : parts x.value.value = ⟨false, 2 ^ 52, -52⟩ := by decide +kernel
    rw [Datum.rat_eq_parts hfx hparts]
    norm_num
  have hb : y.value.rat = 3602879701896397 / 2 ^ 55 := by
    have hparts : parts y.value.value = ⟨false, 3602879701896397 * 2, -56⟩ := by decide +kernel
    rw [Datum.rat_eq_parts hfy hparts]
    norm_num
  rintro ⟨z, t', g, h, hbinary, hgradient, k, hz, -, hh⟩
  have hx : x.Live t := by decide
  have hy : y.Live t := by decide
  rw [binary_rem_eq hx hy (.inl rfl)] at hbinary
  obtain ⟨hz', rfl⟩ := Prod.ext_iff.1 hbinary
  obtain rfl := Except.ok.inj hz'
  -- The value is on the ninth piece.
  have hk : k = 9 := by
    obtain ⟨-, hrem⟩ := Datum.rat_rem hfx hfy (by rw [hb]; norm_num)
    have hwhole : wholePart ((1 : ℚ) / (3602879701896397 / 2 ^ 55)) = 9 := by
      rw [wholePart_of_nonneg (by norm_num)]
      norm_num
    rw [ha, hb] at hz hrem
    rw [hrem, hwhole] at hz
    have hkq : (k : ℚ) = 9 := by
      push_cast at hz
      linarith
    exact_mod_cast hkq
  -- The partial derivative is that of the tenth.
  have hten : h.value = -10 := by
    have hdelivered : Except.map (List.map Datum.value) (.ok [g, h] : Except Breach _) =
        .ok [1, -10] := by
      rw [← hgradient]
      decide +kernel
    exact (List.cons.inj (List.cons.inj (Except.ok.inj hdelivered)).2).1
  have hrat : h.rat = -10 := by
    have hfinite : h.IsFinite := by
      rw [Datum.IsFinite, hten]
      decide +kernel
    have hparts : parts h.value = ⟨true, 5 * 2 ^ 50, -49⟩ := by
      rw [hten]
      decide +kernel
    rw [Datum.rat_eq_parts hfinite hparts]
    norm_num
  rw [hrat, hk] at hh
  norm_num at hh

end Dual

end LogDensity
