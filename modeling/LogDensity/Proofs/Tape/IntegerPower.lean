import LogDensity.Proofs.Evaluation.RationalDensity
import LogDensity.Proofs.Program.Forward
import LogDensity.Proofs.Tape.Paths
import LogDensity.Scalar.Datum

/-!
# Integer powers against long products

An integer power is recorded as one node, with a value computed by repeated squaring and a partial
derivative of its own. Here it is compared with the program that multiplies one by the number as
often as the exponent says and takes the reciprocal at the end if the exponent is negative
(`Dual.longPower`): one node per factor.

The comparison is made on tangents. The tape with the sums over its paths is a valid trail
(`Trail.valid_paths`), either way of computing the power extends it (`Trail.records_unary`,
`Trail.records_longPower`), and either result traces the tangent that the power rule gives
(`Tangent.unary_powi`, `Tangent.longPower_eq`). The sweep back to any mark then reads the same
derivatives off both tapes (`Trail.Traces.gradient_eq_slopes`).

* `ScopedTape.Reachable.powi_eq_longPower`: on a reachable tape the two ways deliver the same value
  and the same gradient, for every exponent but the least one. That one has no exponent below it for
  the derivative, and is refused.
* `ScopedTape.not_powi_delivers`: so it is not true that every exponent is accepted.
-/

namespace LogDensity

/-! ## Repeated squaring -/

/-- Squaring the base halves the exponent that is left. -/
theorem powerFrom_eq {M : Type} [CommMonoid M] (x r : M) (n : Nat) :
    powerFrom x r n = r * x ^ n := by
  induction n using Nat.strongRecOn generalizing x r with
  | ind n ih =>
    have hdigit : (if n % 2 = 1 then r * x else r) = r * x ^ (n % 2) := by
      obtain h | h := Nat.mod_two_eq_zero_or_one n
      · rw [if_neg (by omega), h, pow_zero, mul_one]
      · rw [if_pos h, h, pow_one]
    rw [powerFrom, hdigit]
    split
    · next hlast => rw [Nat.mod_eq_of_lt hlast]
    · next hmore =>
      rw [ih (n / 2) (by omega), ← pow_two, ← pow_mul, mul_assoc, ← pow_add, Nat.mod_add_div]

theorem power_eq_zpow {K : Type} [Field K] (x : K) (n : Int) : power x n = x ^ n := by
  rw [power, powerFrom_eq, one_mul]
  split
  · next hneg =>
    obtain ⟨m, rfl⟩ := Int.exists_eq_neg_ofNat hneg.le
    rw [zpow_neg, zpow_natCast, one_div, Int.natAbs_neg, Int.natAbs_natCast]
  · next hpos =>
    obtain ⟨m, rfl⟩ := Int.eq_ofNat_of_zero_le (not_lt.1 hpos)
    rw [zpow_natCast, Int.natAbs_natCast]

/-! ## The long product -/

namespace Dual

variable {R : Type} [Scalar R]

/-- One, multiplied by a number `n` times. -/
def product (t : Tape R) (x : Dual R) : Nat → Except Breach (Dual R) × Tape R
  | 0 => (.ok (constant 1), t)
  | n + 1 =>
    match product t x n with
    | (.ok y, t) => binary t .mul y x
    | (.error b, t) => (.error b, t)

/-- The product of `|n|` factors, and its reciprocal if `n` is negative. -/
def longPower (t : Tape R) (x : Dual R) (n : Int) : Except Breach (Dual R) × Tape R :=
  match product t x n.natAbs with
  | (.ok y, t) => if n < 0 then unary t .recip y else (.ok y, t)
  | (.error b, t) => (.error b, t)

end Dual

namespace Tangent

variable {K : Type} [Field K] [DecidableEq K] [Elementary K]

/-- One, multiplied by a tangent `n` times. -/
def product (x : Tangent K) : Nat → Tangent K
  | 0 => constant 1
  | n + 1 => binary .mul (product x n) x

/-- The product of `|n|` factors, and its reciprocal if `n` is negative. -/
def longPower (x : Tangent K) (n : Int) : Tangent K :=
  if n < 0 then unary .recip (product x n.natAbs) else product x n.natAbs

/-- The power of a tangent, by the power rule. -/
def powerRule (x : Tangent K) (n : Int) : Tangent K :=
  ⟨x.value ^ n, fun k => n * x.value ^ (n - 1) * x.slopes k⟩

/-- One more factor. -/
theorem mul_powerRule (x : Tangent K) (n : Nat) :
    binary .mul (powerRule x n) x = powerRule x (n + 1 : Nat) := by
  have hpower : x.value ^ ((n + 1 : Nat) : Int) = x.value ^ n * x.value := by
    rw [zpow_natCast, pow_succ]
  have hfactor : x.value * (((n : Int) : K) * x.value ^ ((n : Int) - 1)) =
      ((n : Int) : K) * x.value ^ n := by
    cases n with
    | zero => simp
    | succ n => rw [Nat.cast_succ, add_sub_cancel_right, zpow_natCast, mul_left_comm, ← pow_succ']
  refine congrArg₂ mk ?_ (funext fun k => ?_)
  · change x.value ^ (n : Int) * x.value = _
    rw [hpower, zpow_natCast]
  · change x.value * (((n : Int) : K) * x.value ^ ((n : Int) - 1) * x.slopes k) +
      x.value ^ (n : Int) * x.slopes k = _
    have hexponent : ((n + 1 : Nat) : Int) - 1 = n := by omega
    rw [← mul_assoc, hfactor, zpow_natCast, hexponent, zpow_natCast, Nat.cast_succ, Int.cast_add,
      Int.cast_one]
    ring

/-- The reciprocal. At zero the derivative is zero on either side. -/
theorem recip_powerRule (x : Tangent K) (n : Nat) :
    unary .recip (powerRule x n) = powerRule x (-n) := by
  refine congrArg₂ mk ?_ (funext fun k => ?_)
  · change 1 / x.value ^ (n : Int) = _
    rw [zpow_neg, one_div]
  · change -(1 / x.value ^ (n : Int)) * (1 / x.value ^ (n : Int)) *
      (((n : Int) : K) * x.value ^ ((n : Int) - 1) * x.slopes k) = _
    rw [Int.cast_neg]
    obtain hzero | hne := eq_or_ne x.value 0
    · cases n with
      | zero => simp
      | succ n =>
        have hbelow : -((n + 1 : Nat) : Int) - 1 ≠ 0 := by omega
        have hexponent : ((n + 1 : Nat) : Int) ≠ 0 := by omega
        rw [hzero, zero_zpow _ hbelow, zero_zpow _ hexponent]
        simp
    · have hsplit : x.value ^ (-(n : Int) - 1) =
          x.value ^ ((n : Int) - 1) * (1 / x.value ^ (n : Int)) * (1 / x.value ^ (n : Int)) := by
        rw [one_div, ← zpow_neg, ← zpow_add₀ hne, ← zpow_add₀ hne]
        congr 1
        omega
      rw [hsplit]
      ring

theorem product_eq (x : Tangent K) (n : Nat) : product x n = powerRule x n := by
  induction n with
  | zero => exact congrArg₂ mk (zpow_zero _).symm (funext fun k => by simp)
  | succ n ih => rw [product, ih, mul_powerRule]

theorem longPower_eq (x : Tangent K) (n : Int) : longPower x n = powerRule x n := by
  unfold longPower
  split
  · next hneg =>
    obtain ⟨m, rfl⟩ := Int.exists_eq_neg_ofNat hneg.le
    rw [Int.natAbs_neg, Int.natAbs_natCast, product_eq, recip_powerRule]
  · next hpos =>
    obtain ⟨m, rfl⟩ := Int.eq_ofNat_of_zero_le (not_lt.1 hpos)
    rw [Int.natAbs_natCast, product_eq]

/-- **The tangent of an integer power obeys the power rule.** -/
theorem unary_powi (x : Tangent K) (n : Int32) :
    unary (.powi n) x = powerRule x n.toInt := by
  refine congrArg₂ mk (power_eq_zpow ..) (funext fun k => congrArg (· * x.slopes k) ?_)
  change (if n = 0 then 0 else (n.toInt : K) * power x.value (n.toInt - 1)) = _
  split
  · next hzero => rw [hzero, Int32.toInt_zero, Int.cast_zero, zero_mul]
  · rw [power_eq_zpow]

end Tangent

/-! ## Recorded powers -/

namespace Trail

variable {K : Type} [Field K]

/-- The tape with the sums over its paths. -/
noncomputable def paths (t : Tape K) : Trail K :=
  ⟨t, fun i k => t.pathSum i k⟩

theorem valid_paths {t : Tape K} (ho : t.OrderedFrom 0) : (paths t).Valid 0 t.size where
  ordered := ho
  size_le := (Nat.zero_add _).le
  chainRule k _ := by
    rw [Nat.zero_add]
    exact Tape.chainRule_pathSum ho (Nat.zero_le k)

/-- A live number traces its value and its sums over paths. -/
theorem traces_self {u : Trail K} {x : Dual K} (hx : x.Live u.tape) :
    Traces 0 u x ⟨x.value, u.slope x⟩ :=
  ⟨fun h hh => ⟨hx h hh, Nat.zero_le _⟩, rfl, fun _ => rfl⟩

/-- A node has no derivative with respect to a later one. -/
theorem Valid.slopes_of_lt {n : Nat} {u : Trail K} (hu : u.Valid 0 n) {i k : Nat} (hi : i < k)
    (hk : k < n) : u.slopes i k = 0 := by
  induction i using Nat.strongRecOn with
  | ind i ih =>
    have hsize := hu.size_le
    obtain ⟨node, hnode⟩ : ∃ node, u.tape.nodes[i]? = some node :=
      ⟨_, Array.getElem?_eq_getElem (by rw [Tape.size] at hsize; omega)⟩
    rw [(hu.chainRule k hk).node i (Nat.zero_le _) node hnode, if_neg (by omega), zero_add]
    refine List.sum_eq_zero fun y hy => ?_
    obtain ⟨o, ho, rfl⟩ := List.mem_map.1 hy
    have hlt : o.1 < i := hu.ordered i (Nat.zero_le _) node hnode o ho
    rw [ih o.1 hlt (by omega), mul_zero]

variable [DecidableEq K]

/-- **A sweep back to any mark reads the derivatives of a result off the trail.** Only numbers
recorded before the mark have none. -/
theorem Traces.gradient_eq_slopes {n : Nat} {u : Trail K} {out : Dual K} {y : Tangent K}
    (hout : Traces 0 u out y) (hu : u.Valid 0 n) (mark : Nat) {wrt : List (Dual K)}
    (hlive : ∀ x ∈ wrt, x.Live u.tape) (hwrt : ∀ x ∈ wrt, ∀ k, x.index? = some k → k < n) :
    u.tape.gradient mark out wrt =
      .ok (wrt.map fun x => (Tape.offset? mark x).elim 0 fun j => y.slopes (mark + j)) := by
  have hrule : ∀ x ∈ wrt, ∀ j, x.index? = some (mark + j) →
      u.tape.ChainRule mark (mark + j) fun i => u.slopes i (mark + j) := by
    intro x hx j hj
    have hlt : mark + j < n := hwrt x hx _ hj
    refine ⟨fun i hi => hu.slopes_of_lt (by omega) hlt, fun i hi node hnode => ?_⟩
    rw [(hu.chainRule (mark + j) hlt).node i (Nat.zero_le _) node hnode, Nat.zero_add]
  rw [Tape.gradient_eq_of_chainRule (fun i _ => hu.ordered i (Nat.zero_le _)) hout.holds.live hlive
    (fun j i => u.slopes i j) hrule]
  refine congrArg Except.ok (List.map_congr_left fun x hx => ?_)
  unfold Tape.slope
  cases hx' : Tape.offset? mark x with
  | none => cases Tape.offset? mark out <;> rfl
  | some j =>
    have hlt : mark + j < n := hwrt x hx _ (Tape.offset?_eq_some.1 hx')
    rw [Option.elim_some, ← hout.slope, Trail.slope]
    cases hh : out.handle with
    | none => rw [Tape.offset?, Dual.index?, hh]; rfl
    | some h =>
      rw [Tape.offset?, Dual.index?, hh, Option.map_some, Option.bind_some, Option.elim_some]
      by_cases hbefore : h.index < mark
      · rw [if_pos hbefore, hu.slopes_of_lt (by omega) hlt]
      · rw [if_neg hbefore]
        change u.slopes (mark + (h.index - mark)) (mark + j) = _
        rw [Nat.add_sub_cancel' (not_lt.1 hbefore)]

variable [Elementary K]

/-- What was recorded extends the trail, and the result traces a tangent. -/
def Records (mark n : Nat) (u : Trail K) (r : Except Breach (Dual K) × Tape K)
    (y : Tangent K) : Prop :=
  ∃ v z, u ≤ v ∧ v.Valid mark n ∧ r = (.ok z, v.tape) ∧ Traces mark v z y

variable {mark n : Nat} {u : Trail K} (hu : u.Valid mark n) {x x' : Dual K} {y y' : Tangent K}

include hu

theorem records_unary (hx : Traces mark u x y) {f : Unary} (hf : f ≠ .powi Int32.minValue) :
    Records mark n u (Dual.unary u.tape f x) (Tangent.unary f y) := by
  obtain ⟨v, z, huv, hv, hop, hz⟩ := ofOperation_spec hu [(x, f.slope x.value)]
    (by simpa using hx.holds) (f.value x.value)
  refine ⟨v, z, huv, hv, by rw [Dual.unary, if_neg hf, hop], ?_⟩
  simpa [Tangent.unary, ← hx.value, ← hx.slope] using hz

theorem records_binary (hx : Traces mark u x y) (hx' : Traces mark u x' y') (f : Binary) :
    Records mark n u (Dual.binary u.tape f x x') (Tangent.binary f y y') := by
  obtain ⟨v, z, huv, hv, hop, hz⟩ := ofOperation_spec hu
    [(x, (f.slopes x.value x'.value).1), (x', (f.slopes x.value x'.value).2)]
    (by simpa using ⟨hx.holds, hx'.holds⟩) (f.value x.value x'.value)
  refine ⟨v, z, huv, hv, by rw [Dual.binary, hop], ?_⟩
  simpa [Tangent.binary, ← hx.value, ← hx.slope, ← hx'.value, ← hx'.slope] using hz

theorem records_product (hx : Traces mark u x y) (m : Nat) :
    Records mark n u (Dual.product u.tape x m) (Tangent.product y m) := by
  induction m with
  | zero => exact ⟨u, _, le_rfl, hu, rfl, traces_constant u 1⟩
  | succ m ih =>
    obtain ⟨v, z, huv, hv, hr, hz⟩ := ih
    obtain ⟨w, z', hvw, hw, hr', hz'⟩ := records_binary hv hz (hx.mono huv) .mul
    exact ⟨w, z', huv.trans hvw, hw, by rw [Dual.product, hr]; exact hr', hz'⟩

theorem records_longPower (hx : Traces mark u x y) (m : Int) :
    Records mark n u (Dual.longPower u.tape x m) (Tangent.longPower y m) := by
  obtain ⟨v, z, huv, hv, hr, hz⟩ := records_product hu hx m.natAbs
  rw [Dual.longPower, Tangent.longPower, hr]
  by_cases hneg : m < 0
  · obtain ⟨w, z', hvw, hw, hr', hz'⟩ := records_unary hv hz (f := .recip) nofun
    exact ⟨w, z', huv.trans hvw, hw, by simp only [if_pos hneg, hr'], by rwa [if_pos hneg]⟩
  · exact ⟨v, z, huv, hv, by simp only [if_neg hneg], by rwa [if_neg hneg]⟩

end Trail

namespace ScopedTape

section

variable {K : Type} [Field K] [DecidableEq K] [Elementary K]

/-- **An integer power is the long product, for every exponent but the least.** With the least
exponent it is refused, and nothing is recorded. With any other one both deliver, with the same
value and, for any mark and any live or constant numbers, the same gradient. Division by zero is
zero in a field, so that zero need not be excluded for a negative exponent. -/
theorem Reachable.powi_eq_longPower {s : ScopedTape K} (hs : s.Reachable) {x : Dual K}
    (hx : x.Live s.tape) (n : Int32) :
    (n = Int32.minValue →
      Dual.unary s.tape (.powi n) x = (.error .exponentOverflow, s.tape)) ∧
    (n ≠ Int32.minValue →
      ∃ y t z t', Dual.unary s.tape (.powi n) x = (.ok y, t) ∧
        Dual.longPower s.tape x n.toInt = (.ok z, t') ∧ y.value = z.value ∧
        ∀ mark wrt, (∀ v ∈ wrt, v.Live s.tape) →
          ∃ g, t.gradient mark y wrt = .ok g ∧ t'.gradient mark z wrt = .ok g) := by
  refine ⟨fun hn => by rw [Dual.unary, if_pos (congrArg _ hn)], fun hn => ?_⟩
  have hpowi : Unary.powi n ≠ .powi Int32.minValue := fun h => hn (Unary.powi.inj h)
  have hu := Trail.valid_paths hs.ordered
  have htrace := Trail.traces_self (u := Trail.paths s.tape) hx
  obtain ⟨u, y, hsu, hvalid, hpower, hy⟩ := Trail.records_unary hu htrace hpowi
  obtain ⟨v, z, hsv, hvalid', hproduct, hz⟩ := Trail.records_longPower hu htrace n.toInt
  rw [Tangent.unary_powi] at hy
  rw [Tangent.longPower_eq] at hz
  refine ⟨y, u.tape, z, v.tape, hpower, hproduct, hy.value.trans hz.value.symm, ?_⟩
  intro mark wrt hwrt
  have hindex : ∀ w ∈ wrt, ∀ k, w.index? = some k → k < s.tape.size := by
    intro w hw k hk
    obtain ⟨h, hh, rfl⟩ := Option.map_eq_some_iff.1 hk
    exact (hwrt w hw h hh).index_lt
  have hlive {t : Trail K} (hle : Trail.paths s.tape ≤ t) : ∀ w ∈ wrt, w.Live t.tape :=
    fun w hw => ((Trail.traces_self (hwrt w hw)).mono hle).holds.live
  exact ⟨_, hy.gradient_eq_slopes hvalid mark (hlive hsu) hindex,
    hz.gradient_eq_slopes hvalid' mark (hlive hsv) hindex⟩

end

/-- One variable in an open scope. -/
def oneVariable (R : Type) : ScopedTape R :=
  run {} [.openScope, .record []]

theorem powi_eq_longPower_reciprocalCube :
    let s := oneVariable ℚ
    let x : Dual ℚ := ⟨2, some ⟨0, 0⟩⟩
    s.Reachable ∧ x.Live s.tape ∧ (-3 : Int32) ≠ Int32.minValue ∧
      ∃ y t z t' g, Dual.unary s.tape (.powi (-3)) x = (.ok y, t) ∧
        Dual.longPower s.tape x (-3) = (.ok z, t') ∧ y.value = z.value ∧
        t.gradient 0 y [x] = .ok g ∧ t'.gradient 0 z [x] = .ok g := by
  intro s x
  have hs : s.Reachable := ⟨_, rfl⟩
  have hx : x.Live s.tape := by decide
  have hn : (-3 : Int32) ≠ Int32.minValue := by decide
  obtain ⟨y, t, z, t', hpower, hproduct, hvalue, hgradient⟩ := (hs.powi_eq_longPower hx (-3)).2 hn
  obtain ⟨g, hy, hz⟩ := hgradient 0 [x] (by simpa using hx)
  exact ⟨hs, hx, hn, y, t, z, t', g, hpower, hproduct, hvalue, hy, hz⟩

/-- Not every exponent is accepted: the least one is refused also for the variable one. -/
theorem not_powi_delivers :
    ¬ ∀ (s : ScopedTape Datum) (x : Dual Datum) (n : Int32), s.Reachable →
      x.isConstant = false → x.Live s.tape → ∃ y t, Dual.unary s.tape (.powi n) x = (.ok y, t) := by
  intro h
  obtain ⟨y, t, hy⟩ := h (oneVariable Datum) ⟨1, some ⟨0, 0⟩⟩ Int32.minValue ⟨_, rfl⟩ rfl
    (by decide)
  rw [Dual.unary, if_pos rfl] at hy
  cases hy

end ScopedTape

end LogDensity
