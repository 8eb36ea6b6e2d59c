import LogDensity.Draws.Uniform
import LogDensity.Models.Mock
import LogDensity.Proofs.Binary64.Arithmetic
import LogDensity.Proofs.Binary64.Parts
import Mathlib

/-!
# Random initial values stay within the radius

A draw is a fraction of the width of the interval, rounded, moved to the lower bound and rounded
again. In rationals that is `moved r f`. Both roundings respect the bounds, so no draw leaves the
interval and the width never has to be lowered (`fit_eq`).

The upper bound itself is left out only where rounding leaves room for it: the largest fraction is
`2 ^ (-52)` below one, which is more than half a last place of the width, unless the radius is at
most `2 ^ (-1024)` (`moved_lt`, `moved_eq`). And there is a distribution only if the width is
finite, which it is not from `2 ^ 1023` on, although the radius may be (`isFinite_width`).
-/

namespace LogDensity

open Binary64

namespace Uniform

/-! ## Rounding twice -/

variable {r f : ℚ}

/-- A fraction of the width of an interval, moved to its lower bound, each step rounded. -/
def moved (r f : ℚ) : ℚ :=
  nearest (nearest (f * (2 * r)) - r)

/-- The fraction of the width stays within the width. -/
theorem nearest_scaled_mem (hr : Representable r) (hpos : 0 ≤ r) (hf : 0 ≤ f) (hf' : f ≤ 1) :
    0 ≤ nearest (f * (2 * r)) ∧ nearest (f * (2 * r)) ≤ 2 * r := by
  refine ⟨nearest_nonneg (by positivity), nearest_le hr.two_mul ?_⟩
  exact mul_le_of_le_one_left (by positivity) hf'

theorem moved_mem (hr : Representable r) (hpos : 0 ≤ r) (hf : 0 ≤ f) (hf' : f ≤ 1) :
    -r ≤ moved r f ∧ moved r f ≤ r := by
  obtain ⟨hlow, hhigh⟩ := nearest_scaled_mem hr hpos hf hf'
  exact ⟨le_nearest hr.neg (by linarith), nearest_le hr (by linarith)⟩

/-- Unless a number is tiny, the part of it that the largest fraction is short of is more than
half of its last place. -/
theorem zpow_lastPlace_lt {w : ℚ} (hpos : 0 < w) (hw : (2 : ℚ) ^ (-1023 : ℤ) < w) :
    (2 : ℚ) ^ lastPlace w / 2 < w / 2 ^ 52 := by
  have hbound : 2 ^ 52 * (2 : ℚ) ^ lastPlace w < 2 * w := by
    obtain hlowest | hhigh := (le_lastPlace w).eq_or_lt
    · have hdouble : (2 ^ 52 : ℚ) * (2 : ℚ) ^ (-1074 : ℤ) = 2 * (2 : ℚ) ^ (-1023 : ℤ) :=
        (pow_mul_zpow 52 (-1074)).trans (zpow_one_add₀ two_ne_zero (-1023))
      rw [← hlowest, hdouble]
      linarith
    · have hle := zpow_lastPlace_le hpos.ne' hhigh
      rw [abs_of_pos hpos] at hle
      linarith
  rw [div_lt_div_iff₀ two_pos (by positivity)]
  linarith

/-- A fraction of the width that is not the whole width is rounded below it. -/
theorem nearest_scaled_lt (hlow : (2 : ℚ) ^ (-1024 : ℤ) < r) (hf : 0 ≤ f)
    (hf' : f ≤ 1 - 1 / 2 ^ 52) : nearest (f * (2 * r)) < 2 * r := by
  have hpos : 0 < r := lt_trans (by positivity) hlow
  have hdouble : (2 : ℚ) ^ (-1023 : ℤ) = 2 * (2 : ℚ) ^ (-1024 : ℤ) :=
    zpow_one_add₀ two_ne_zero (-1024)
  have hwidth : (2 : ℚ) ^ (-1023 : ℤ) < 2 * r := by
    rw [hdouble]
    linarith
  obtain hzero | hne := eq_or_ne (f * (2 * r)) 0
  · rw [hzero, nearest_zero]
    positivity
  by_contra hnot
  -- Otherwise rounding would have moved the fraction by more than half of a last place.
  have hscaled : f * (2 * r) ≤ 2 * r - 2 * r / 2 ^ 52 := by
    calc f * (2 * r) ≤ (1 - 1 / 2 ^ 52) * (2 * r) := mul_le_mul_of_nonneg_right hf' (by positivity)
      _ = 2 * r - 2 * r / 2 ^ 52 := by ring
  have hplace : lastPlace (f * (2 * r)) ≤ lastPlace (2 * r) := by
    apply lastPlace_le_lastPlace hne
    rw [abs_of_nonneg (by positivity), abs_of_pos (by positivity)]
    exact mul_le_of_le_one_left (by positivity) (hf'.trans (by norm_num))
  have hclose := (abs_le.1 (abs_sub_nearest_le (f * (2 * r)))).1
  have hroom := zpow_lastPlace_lt (by positivity) hwidth
  have hmono : (2 : ℚ) ^ lastPlace (f * (2 * r)) ≤ (2 : ℚ) ^ lastPlace (2 * r) :=
    zpow_le_zpow_right₀ (by norm_num) hplace
  linarith [not_lt.1 hnot]

/-- Above `2 ^ (-1024)`, no draw is the upper bound. -/
theorem moved_lt (hr : Representable r) (hlow : (2 : ℚ) ^ (-1024 : ℤ) < r) (hf : 0 ≤ f)
    (hf' : f ≤ 1 - 1 / 2 ^ 52) : moved r f < r := by
  have hpos : 0 < r := lt_trans (by positivity) hlow
  have hlt := nearest_scaled_lt hlow hf hf'
  rw [moved]
  obtain hle | hlt' := le_or_gt (nearest (f * (2 * r))) r
  · exact (nearest_le .zero (by linarith)).trans_lt hpos
  · -- The difference is within a factor of two, so it is exact.
    have hexact : Representable (nearest (f * (2 * r)) - r) :=
      (representable_nearest _).sub hr hlt'.le hlt.le
    rw [hexact.nearest_eq]
    linarith

/-- A tiny radius is a small multiple of the least positive number. -/
theorem exists_multiple (hr : Representable r) (hpos : 0 < r)
    (hlow : r ≤ (2 : ℚ) ^ (-1024 : ℤ)) :
    ∃ n : ℤ, r = n * (2 : ℚ) ^ (-1074 : ℤ) ∧ (0 : ℚ) < n ∧ (n : ℚ) ≤ 2 ^ 50 := by
  obtain ⟨m, e, -, he, hm⟩ := hr
  obtain ⟨n, hn⟩ : ∃ n : ℤ, r = n * (2 : ℚ) ^ (-1074 : ℤ) :=
    ⟨_, hm.trans (Representable.multiple_of_le he)⟩
  have hunit : (0 : ℚ) < (2 : ℚ) ^ (-1074 : ℤ) := by positivity
  have hpow : (2 ^ 50 : ℚ) * (2 : ℚ) ^ (-1074 : ℤ) = (2 : ℚ) ^ (-1024 : ℤ) :=
    pow_mul_zpow 50 (-1074)
  rw [hn] at hpos
  rw [hn, ← hpow] at hlow
  exact ⟨n, hn, pos_of_mul_pos_left hpos hunit.le, le_of_mul_le_mul_right hlow hunit⟩

/-- Up to `2 ^ (-1024)`, the largest fraction of the width is rounded to the whole width. -/
theorem moved_eq (hr : Representable r) (hpos : 0 < r) (hlow : r ≤ (2 : ℚ) ^ (-1024 : ℤ)) :
    moved r (1 - 1 / 2 ^ 52) = r := by
  obtain ⟨n, hn, hn₀, hsmall⟩ := exists_multiple hr hpos hlow
  have hunit : (0 : ℚ) < (2 : ℚ) ^ (-1074 : ℤ) := by positivity
  set x := (1 - 1 / 2 ^ 52) * (2 * r) with hx
  have hscaled : x = (2 * n - 2 * n / 2 ^ 52) * (2 : ℚ) ^ (-1074 : ℤ) := by
    rw [hx, hn]
    generalize (2 : ℚ) ^ (-1074 : ℤ) = unit
    ring
  have hfactor : 0 < 2 * (n : ℚ) - 2 * n / 2 ^ 52 := by linarith
  have hplace : lastPlace x = -1074 := by
    have hxpos : 0 < x := by
      rw [hscaled]
      positivity
    apply lastPlace_eq le_rfl _ (.inr ⟨hxpos.ne', rfl⟩)
    rw [abs_of_pos hxpos, hscaled]
    exact mul_lt_mul_of_pos_right (by linarith) hunit
  have hround : roundEven (x / (2 : ℚ) ^ lastPlace x) = 2 * n := by
    rw [hplace, hscaled, mul_div_cancel_right₀ _ hunit.ne']
    apply roundEven_eq_of_even _ (even_two_mul n)
    push_cast
    rw [abs_le]
    constructor <;> linarith
  have hwidth : nearest x = 2 * r := by
    rw [nearest, hround, hplace, hn, Int.cast_mul, mul_assoc]
    rfl
  rw [moved, hwidth, two_mul, add_sub_cancel_right, hr.nearest_eq]

/-! ## The draws -/

/-- The value of the fraction that a word stands for. -/
def fractionValue (w : UInt64) : ℚ :=
  ((w >>> 12).toNat : ℚ) * (2 : ℚ) ^ (-52 : ℤ)

theorem toNat_shiftRight_lt (w : UInt64) : (w >>> 12).toNat < 2 ^ 52 := by
  have hlt : w.toNat < 2 ^ 64 := w.toNat_lt
  have hshift : (w >>> 12).toNat = w.toNat / 2 ^ 12 := by
    rw [UInt64.toNat_shiftRight, Nat.shiftRight_eq_div_pow]
    rfl
  omega

theorem fractionValue_mem (w : UInt64) :
    0 ≤ fractionValue w ∧ fractionValue w ≤ 1 - 1 / 2 ^ 52 := by
  have hle : ((w >>> 12).toNat : ℚ) ≤ 2 ^ 52 - 1 := by
    have hlt := toNat_shiftRight_lt w
    have hsucc : (w >>> 12).toNat + 1 ≤ 2 ^ 52 := hlt
    have hcast : ((w >>> 12).toNat : ℚ) + 1 ≤ 2 ^ 52 := by exact_mod_cast hsucc
    linarith
  refine ⟨by rw [fractionValue]; positivity, ?_⟩
  calc fractionValue w ≤ (2 ^ 52 - 1) * (2 : ℚ) ^ (-52 : ℤ) :=
        mul_le_mul_of_nonneg_right hle (by positivity)
    _ = 1 - 1 / 2 ^ 52 := by norm_num

theorem isFinite_fraction (w : UInt64) : (fraction w).isFinite = true :=
  isFinite_ofParts _ ((toNat_shiftRight_lt w).trans (by norm_num)) (by norm_num) (by norm_num)

theorem value_fraction (w : UInt64) : value (fraction w) = fractionValue w := by
  rw [fraction, value_ofParts _ ((toNat_shiftRight_lt w).trans (by norm_num)) (by norm_num)
    (by norm_num)]
  rfl

/-- The word that stands for the largest fraction. -/
def allOnes : UInt64 :=
  0xffffffffffffffff

theorem maxFraction_eq : maxFraction = fraction allOnes :=
  rfl

theorem fractionValue_allOnes : fractionValue allOnes = 1 - 1 / 2 ^ 52 := by
  have hshift : (allOnes >>> 12).toNat = 2 ^ 52 - 1 := by decide
  rw [fractionValue, hshift]
  norm_num

/-- The distribution between the negation of a radius and the radius. -/
def centred (radius : Float) : Uniform :=
  ⟨-radius, radius - -radius⟩

/-- A radius that has a distribution: the width of the interval is a number. -/
structure Admits (radius : Float) : Prop where
  isFinite : radius.isFinite = true
  pos : 0 < value radius
  lt : value radius < 2 ^ 1023

variable {radius : Float}

theorem value_neg_radius (h : radius.isFinite = true) :
    (-radius).isFinite = true ∧ value (-radius) = -value radius :=
  ⟨(isFinite_neg (isNaN_of_isFinite h)).trans h, value_neg (isNaN_of_isFinite h)⟩

/-- The width is exact, and finite up to half of the largest numbers. -/
theorem isFinite_width (h : radius.isFinite = true) (hpos : 0 < value radius) :
    ((radius - -radius).isFinite = true ↔ value radius < 2 ^ 1023) ∧
      ((radius - -radius).isFinite = true → value (radius - -radius) = 2 * value radius) := by
  obtain ⟨hneg, hvalue⟩ := value_neg_radius h
  obtain ⟨hfinite, hwidth⟩ := rounds_sub h hneg
  have hexact : nearest (value radius - value (-radius)) = 2 * value radius := by
    rw [hvalue, sub_neg_eq_add, ← two_mul, (representable_value h).two_mul.nearest_eq]
  rw [hexact] at hfinite hwidth
  refine ⟨hfinite.trans ?_, hwidth⟩
  have hpow : (2 : ℚ) ^ 1024 = 2 * 2 ^ 1023 := pow_succ' 2 1023
  rw [abs_of_pos (by positivity), hpow, mul_lt_mul_iff_right₀ two_pos]

/-- A rounded fraction of the width, moved to the lower bound. -/
theorem value_moved (h : Admits radius) {p : Float} {f : ℚ} (hf : 0 ≤ f) (hf' : f ≤ 1)
    (hp : Rounds p (f * (2 * value radius))) :
    (p + -radius).isFinite = true ∧ value (p + -radius) = moved (value radius) f := by
  have hr := representable_value h.isFinite
  have hpow : (2 : ℚ) ^ 1024 = 2 * 2 ^ 1023 := pow_succ' 2 1023
  obtain ⟨hneg, hvalue⟩ := value_neg_radius h.isFinite
  obtain ⟨hlow, hhigh⟩ := nearest_scaled_mem hr h.pos.le hf hf'
  have hfinite : p.isFinite = true := by
    rw [hp.isFinite_iff, abs_of_nonneg hlow, hpow]
    exact hhigh.trans_lt (mul_lt_mul_of_pos_left h.lt two_pos)
  have hsum := rounds_add hfinite hneg
  rw [hp.value_eq hfinite, hvalue, ← sub_eq_add_neg] at hsum
  have hmoved : (p + -radius).isFinite = true := by
    rw [hsum.isFinite_iff]
    have hle : |moved (value radius) f| ≤ value radius := abs_le.2 (moved_mem hr h.pos.le hf hf')
    exact hle.trans_lt ((le_abs_self _).trans_lt (abs_value_lt h.isFinite))
  exact ⟨hmoved, hsum.value_eq hmoved⟩

theorem value_width (h : Admits radius) :
    (radius - -radius).isFinite = true ∧ value (radius - -radius) = 2 * value radius := by
  obtain ⟨hiff, hvalue⟩ := isFinite_width h.isFinite h.pos
  exact ⟨hiff.2 h.lt, hvalue (hiff.2 h.lt)⟩

/-- What a draw is worth. -/
theorem value_draw (h : Admits radius) (w : UInt64) :
    ((centred radius).draw w).isFinite = true ∧
      value ((centred radius).draw w) = moved (value radius) (fractionValue w) := by
  obtain ⟨hwidth, hvalue⟩ := value_width h
  obtain ⟨hlow, hhigh⟩ := fractionValue_mem w
  have hproduct := rounds_mul (isFinite_fraction w) hwidth
  rw [value_fraction, hvalue] at hproduct
  exact value_moved h hlow (hhigh.trans (by norm_num)) hproduct

/-- The width is not lowered. -/
theorem fit_eq (h : Admits radius) (n : Nat) :
    fit (-radius) radius n (radius - -radius) = radius - -radius := by
  cases n with
  | zero => rfl
  | succ n =>
    obtain ⟨hwidth, hvalue⟩ := value_width h
    obtain ⟨hlow, hhigh⟩ := fractionValue_mem allOnes
    have hproduct := rounds_mul hwidth (isFinite_fraction allOnes)
    rw [value_fraction, hvalue, mul_comm] at hproduct
    obtain ⟨hfinite, hmoved⟩ := value_moved h hlow (hhigh.trans (by norm_num)) hproduct
    have hle := (moved_mem (representable_value h.isFinite) h.pos.le hlow
      (hhigh.trans (by norm_num))).2
    rw [fit, maxFraction_eq, if_neg]
    rw [lt_iff_value h.isFinite hfinite, hmoved, not_lt]
    exact hle

theorem neg_lt_iff (h : radius.isFinite = true) : -radius < radius ↔ 0 < value radius := by
  obtain ⟨hneg, hvalue⟩ := value_neg_radius h
  rw [lt_iff_value hneg h, hvalue]
  constructor <;> intro h <;> linarith

theorem between_of_admits (h : Admits radius) :
    between (-radius) radius = .ok (centred radius) := by
  obtain ⟨hneg, -⟩ := value_neg_radius h.isFinite
  simp only [between, hneg, h.isFinite, (value_width h).1, (neg_lt_iff h.isFinite).2 h.pos,
    fit_eq h]
  rfl

theorem between_of_not_admits (h : ¬ Admits radius) :
    ∃ e, between (-radius) radius = .error e := by
  by_cases hfinite : radius.isFinite = true
  · obtain ⟨hneg, -⟩ := value_neg_radius hfinite
    by_cases hpos : 0 < value radius
    · have hwidth : (radius - -radius).isFinite = false := by
        rw [Bool.eq_false_iff, Ne, (isFinite_width hfinite hpos).1]
        exact fun hlt => h ⟨hfinite, hpos, hlt⟩
      simp only [between, hneg, hfinite, (neg_lt_iff hfinite).2 hpos, hwidth]
      exact ⟨.nonFinite, rfl⟩
    · simp only [between, hneg, hfinite, mt (neg_lt_iff hfinite).1 hpos]
      exact ⟨.emptyRange, rfl⟩
  · simp only [between, Bool.eq_false_iff.2 hfinite, Bool.not_false, Bool.or_true]
    exact ⟨.nonFinite, rfl⟩

theorem admits_iff : Admits radius ↔
    radius.isFinite = true ∧ 0 < radius ∧ value radius < 2 ^ 1023 := by
  have hpos (h : radius.isFinite = true) : 0 < radius ↔ 0 < value radius := by
    rw [lt_iff_value isFinite_zero h, value_zero]
  constructor
  · rintro ⟨hfinite, hpos', hlt⟩
    exact ⟨hfinite, (hpos hfinite).2 hpos', hlt⟩
  · rintro ⟨hfinite, hpos', hlt⟩
    exact ⟨hfinite, (hpos hfinite).1 hpos', hlt⟩

/-- Every draw is between the bounds. -/
theorem draw_mem (h : Admits radius) (w : UInt64) :
    -radius ≤ (centred radius).draw w ∧ (centred radius).draw w ≤ radius := by
  obtain ⟨hneg, hvalue⟩ := value_neg_radius h.isFinite
  obtain ⟨hfinite, hdraw⟩ := value_draw h w
  obtain ⟨hlow, hhigh⟩ := fractionValue_mem w
  rw [le_iff_value hneg hfinite, le_iff_value hfinite h.isFinite, hdraw, hvalue]
  exact moved_mem (representable_value h.isFinite) h.pos.le hlow (hhigh.trans (by norm_num))

/-- The upper bound is left out exactly if the radius is not tiny. -/
theorem draw_lt_iff (h : Admits radius) :
    (∀ w, (centred radius).draw w < radius) ↔ (2 : ℚ) ^ (-1024 : ℤ) < value radius := by
  have hr := representable_value h.isFinite
  have hlt (w : UInt64) : (centred radius).draw w < radius ↔
      moved (value radius) (fractionValue w) < value radius := by
    rw [lt_iff_value (value_draw h w).1 h.isFinite, (value_draw h w).2]
  constructor
  · intro hall
    by_contra htiny
    have hones := (hlt allOnes).1 (hall allOnes)
    rw [fractionValue_allOnes, moved_eq hr h.pos (not_lt.1 htiny)] at hones
    exact lt_irrefl _ hones
  · intro hlow w
    obtain ⟨hf, hf'⟩ := fractionValue_mem w
    exact (hlt w).2 (moved_lt hr hlow hf hf')

end Uniform

/-- Drawing uses one word for each value, in turn. -/
theorem drawMany_eq (u : Uniform) (n : Nat) (s : WordSource) :
    drawMany u n s = ((List.range n).map fun i => u.draw (s.word (s.used + i)),
      { s with used := s.used + n }) := by
  induction n generalizing s with
  | zero => rfl
  | succ n ih =>
    rw [drawMany, List.range_succ_eq_map]
    simp only [WordSource.next, ih, List.map_cons, List.map_map, add_zero, Function.comp_def,
      Nat.add_assoc, Nat.add_comm 1]

/-- **Initial values are drawn from the interval, if its width is a number.** For a positive radius
below `2 ^ 1023` there is one value for each parameter and one word for each value; the value
depends on that word and the radius alone, and lies between the bounds. The upper bound itself is
never drawn exactly if the radius is above `2 ^ (-1024)`. For all other radii the call fails, and no
word is used. -/
theorem randomInits_spec (space : ParameterSpace) (radius : Float) (s : WordSource) :
    if radius.isFinite = true ∧ 0 < radius ∧ value radius < 2 ^ 1023 then
      randomInits space radius s =
          (.ok ((List.range space.size).map fun i =>
              (Uniform.centred radius).draw (s.word (s.used + i))),
            { s with used := s.used + space.size }) ∧
        (∀ w, -radius ≤ (Uniform.centred radius).draw w ∧
          (Uniform.centred radius).draw w ≤ radius) ∧
        ((∀ w, (Uniform.centred radius).draw w < radius) ↔ (2 : ℚ) ^ (-1024 : ℤ) < value radius)
    else
      ∃ e : UniformError, randomInits space radius s = (.error
        (.domain s!"invalid initialization radius {Binary64.display radius}: {e.message}"), s) := by
  split
  · rename_i h
    have hadmits := Uniform.admits_iff.2 h
    refine ⟨?_, Uniform.draw_mem hadmits, Uniform.draw_lt_iff hadmits⟩
    rw [randomInits, Uniform.between_of_admits hadmits]
    simp only [drawMany_eq]
  · rename_i h
    obtain ⟨e, he⟩ := Uniform.between_of_not_admits (mt Uniform.admits_iff.1 h)
    refine ⟨e, ?_⟩
    rw [randomInits, he]

/-- What would be expected of every radius: values of the half-open interval if it is positive and
finite, and an error if not. -/
def DrawsHalfOpen (space : ParameterSpace) (radius : Float) (s : WordSource) : Prop :=
  if radius.isFinite = true ∧ 0 < radius then
    ∃ xs, randomInits space radius s = (.ok xs, { s with used := s.used + space.size }) ∧
      xs.length = space.size ∧ ∀ x ∈ xs, -radius ≤ x ∧ x < radius
  else ∃ message, randomInits space radius s = (.error (.domain message), s)

/-- A large radius is refused, and a tiny one is drawn itself. -/
theorem not_drawsHalfOpen :
    ¬ DrawsHalfOpen Mock.space 1e308 (.ofCycle [0]) ∧
      ¬ DrawsHalfOpen Mock.space 5e-324 (.ofCycle [Uniform.allOnes]) := by
  have hlarge : (randomInits Mock.space 1e308 (.ofCycle [0])).1.isOk = false := by decide +kernel
  have htiny : (randomInits Mock.space 5e-324 (.ofCycle [Uniform.allOnes])).1 = .ok [5e-324] := by
    decide +kernel
  constructor
  · rw [DrawsHalfOpen, if_pos (by decide +kernel)]
    rintro ⟨xs, heq, -⟩
    rw [heq] at hlarge
    cases hlarge
  · rw [DrawsHalfOpen, if_pos (by decide +kernel)]
    rintro ⟨xs, heq, -, hmem⟩
    rw [heq] at htiny
    obtain rfl : xs = [5e-324] := Except.ok.inj htiny
    have hself : ¬ (5e-324 : Float) < 5e-324 := by decide +kernel
    exact hself (hmem _ List.mem_cons_self).2

end LogDensity
