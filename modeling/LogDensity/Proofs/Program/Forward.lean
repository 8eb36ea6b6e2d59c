import LogDensity.Proofs.Evaluation.Workspace
import LogDensity.Proofs.Program.Simulation
import LogDensity.Proofs.Tape.ChainRule

/-!
# Forward derivatives

Under the interpretation `forward` a number is a `Tangent`: a value with its derivatives with
respect to all parameters. An operation computes the derivatives of its result from those of its
operands, so that no tape is needed.

Recording and sweeping give the same derivatives. While a program records, a `Trail` lists the
derivatives of the nodes recorded so far; it obeys the chain rule (`Trail.Valid`), and a recorded
number belongs to a tangent if the trail has its derivatives (`Trail.Traces`). Recording an
operation extends the trail (`Trail.ofOperation_spec`), which makes `recorded` and `forward` a
simulation, and the sweep reads the derivatives of the result off the trail.

* `gradientAt_eq_forward`: the gradient of a density in a scope of any tape is the derivatives that
  the density has under `forward`.
-/

namespace LogDensity

/-- A value with its derivatives with respect to the parameters. -/
structure Tangent (R : Type) where
  value : R
  slopes : Nat → R

namespace Tangent

section

variable {R : Type} [Scalar R]

/-- A function of a tangent, by the chain rule. -/
def unary (f : Unary) (x : Tangent R) : Tangent R :=
  ⟨f.value x.value, fun k => f.slope x.value * x.slopes k⟩

/-- A function of two tangents, by the chain rule. -/
def binary (f : Binary) (x y : Tangent R) : Tangent R :=
  ⟨f.value x.value y.value, fun k =>
    (f.slopes x.value y.value).1 * x.slopes k + (f.slopes x.value y.value).2 * y.slopes k⟩

end

variable {R : Type} [Zero R]

/-- A value that depends on no parameter. -/
def constant (x : R) : Tangent R :=
  ⟨x, fun _ => 0⟩

/-- The parameter with number `i`. -/
def param [One R] (i : Nat) (x : R) : Tangent R :=
  ⟨x, fun k => if i = k then 1 else 0⟩

/-- The parameters with given values. -/
def params [One R] (xs : List R) : List (Tangent R) :=
  xs.zipIdx.map fun (x, i) => param i x

end Tangent

/-- Numbers are tangents. -/
def Interpretation.forward {R : Type} [Scalar R] : Interpretation R (Tangent R) where
  primal := Tangent.value
  constant := Tangent.constant
  unary f x :=
    if f = .powi Int32.minValue then Run.halt .exponentOverflow else pure (Tangent.unary f x)
  binary f x y := pure (Tangent.binary f x y)

/-- A tape together with the derivatives of its nodes with respect to the parameters. -/
structure Trail (K : Type) where
  tape : Tape K
  slopes : Nat → Nat → K

namespace Trail

variable {K : Type}

/-- A trail grows if its nodes keep their places and derivatives. -/
instance : Preorder (Trail K) where
  le u v := ∀ i node, u.tape.nodes[i]? = some node →
    v.tape.nodes[i]? = some node ∧ v.slopes i = u.slopes i
  le_refl _ _ _ h := ⟨h, rfl⟩
  le_trans _ _ _ huv hvw i node h :=
    ⟨(hvw i node (huv i node h).1).1, (hvw i node (huv i node h).1).2.trans (huv i node h).2⟩

/-- The number is a constant, or it names a node that was recorded at or after the mark. -/
def Holds (u : Trail K) (mark : Nat) (x : Dual K) : Prop :=
  ∀ h ∈ x.handle, u.tape.Live h ∧ mark ≤ h.index

variable {mark n : Nat} {u v : Trail K}

theorem Holds.mono (huv : u ≤ v) {x : Dual K} (hx : u.Holds mark x) : v.Holds mark x := by
  intro h hh
  obtain ⟨hl, hmark⟩ := hx h hh
  obtain ⟨node, hnode, hserial⟩ := Option.map_eq_some_iff.1 hl
  exact ⟨Option.map_eq_some_iff.2 ⟨node, (huv _ _ hnode).1, hserial⟩, hmark⟩

theorem Holds.live {x : Dual K} (hx : u.Holds mark x) : x.Live u.tape :=
  fun h hh => (hx h hh).1

variable [Field K]

/-- The derivative of a recorded number with respect to a parameter. -/
def slope (u : Trail K) (x : Dual K) (k : Nat) : K :=
  x.handle.elim 0 fun h => u.slopes h.index k

/-- A recorded number has the value and the derivatives of a tangent. -/
structure Traces (mark : Nat) (u : Trail K) (x : Dual K) (y : Tangent K) : Prop where
  holds : u.Holds mark x
  value : x.value = y.value
  slope : ∀ k, u.slope x k = y.slopes k

/-- From the mark on the tape begins with the nodes of `n` parameters, and the derivatives with
respect to these obey the chain rule. -/
structure Valid (mark n : Nat) (u : Trail K) : Prop where
  ordered : u.tape.OrderedFrom mark
  size_le : mark + n ≤ u.tape.size
  chainRule : ∀ k < n, u.tape.ChainRule mark (mark + k) fun i => u.slopes i k

theorem slope_eq_of_le (huv : u ≤ v) {x : Dual K} (hx : u.Holds mark x) (k : Nat) :
    v.slope x k = u.slope x k := by
  unfold slope
  cases hh : x.handle with
  | none => rfl
  | some h =>
    obtain ⟨node, hnode, -⟩ := Option.map_eq_some_iff.1 (hx h hh).1
    exact congrFun (huv _ _ hnode).2 k

theorem Traces.mono (huv : u ≤ v) {x : Dual K} {y : Tangent K} (h : Traces mark u x y) :
    Traces mark v x y where
  holds := h.holds.mono huv
  value := h.value
  slope k := (slope_eq_of_le huv h.holds k).trans (h.slope k)

theorem traces_constant (u : Trail K) (c : K) :
    Traces mark u (Dual.constant c) (Tangent.constant c) where
  holds _ hh := nomatch hh
  value := rfl
  slope _ := rfl

/-- Constants among the operands contribute nothing. -/
theorem sum_tracked (operands : List (Dual K × K)) (k : Nat) :
    ((Dual.tracked operands).map fun o => o.2 * u.slopes o.1.index k).sum =
      (operands.map fun o => o.2 * u.slope o.1 k).sum := by
  induction operands with
  | nil => rfl
  | cons o operands ih =>
    obtain ⟨x, p⟩ := o
    rw [List.map_cons, List.sum_cons, ← ih]
    unfold Dual.tracked slope
    cases hx : x.handle with
    | none => simp [hx]
    | some h => simp [hx]

/-- The trail after a node with the given operands was recorded. -/
def push (u : Trail K) (operands : List (Handle × K)) : Trail K where
  tape := (u.tape.record operands).2
  slopes := Function.update u.slopes u.tape.size fun k =>
    (operands.map fun o => o.2 * u.slopes o.1.index k).sum

theorem le_push {operands : List (Handle × K)} (hl : ∀ o ∈ operands, u.tape.Live o.1) :
    u ≤ u.push operands := by
  intro i node hnode
  have hi : i < u.tape.size := (Array.getElem?_eq_some_iff.1 hnode).1
  refine ⟨?_, Function.update_of_ne (by omega) _ _⟩
  simp only [push, Tape.record_of_live hl]
  rw [Array.getElem?_push, if_neg (by rw [← Tape.size]; omega)]
  exact hnode

/-- The derivatives of a node with live operands obey the chain rule. -/
theorem Valid.push (hu : u.Valid mark n) {operands : List (Handle × K)}
    (hl : ∀ o ∈ operands, u.tape.Live o.1) : (u.push operands).Valid mark n where
  ordered := hu.ordered.record operands
  size_le := by
    have := hu.size_le
    simp only [Trail.push, Tape.record_of_live hl, Tape.size, Array.size_push] at this ⊢
    omega
  chainRule k hk := by
    have hsize := hu.size_le
    refine ⟨fun i hi => ?_, fun i hi node hnode => ?_⟩
    · simp only [Trail.push]
      rw [Function.update_of_ne (by omega)]
      exact (hu.chainRule k hk).before i hi
    · simp only [Trail.push, Tape.record_of_live hl, Array.getElem?_push] at hnode ⊢
      split at hnode
      · next hend =>
        -- the new node: its operands have their derivatives already
        obtain rfl := Option.some.inj hnode
        have hi' : i = u.tape.size := hend
        subst hi'
        rw [Function.update_self, if_neg (by omega), zero_add, Tape.nodeOf, List.map_map]
        refine congrArg List.sum (List.map_congr_left fun o ho => ?_)
        simp only [Function.comp]
        rw [Function.update_of_ne (hl o ho).index_lt.ne]
      · have hlt : i < u.tape.size := (Array.getElem?_eq_some_iff.1 hnode).1
        rw [Function.update_of_ne hlt.ne, (hu.chainRule k hk).node i hi node hnode]
        congr 1
        refine congrArg List.sum (List.map_congr_left fun o ho => ?_)
        rw [Function.update_of_ne (by have := hu.ordered i hi node hnode o ho; omega)]

/-- **Recording an operation extends the trail by the derivatives of its result.** -/
theorem ofOperation_spec (hu : u.Valid mark n) (operands : List (Dual K × K))
    (hops : ∀ o ∈ operands, u.Holds mark o.1) (x : K) :
    ∃ v y, u ≤ v ∧ v.Valid mark n ∧ Dual.ofOperation u.tape x operands = (.ok y, v.tape) ∧
      Traces mark v y ⟨x, fun k => (operands.map fun o => o.2 * u.slope o.1 k).sum⟩ := by
  have hlive : ∀ o ∈ operands, o.1.Live u.tape := fun o ho => (hops o ho).live
  by_cases htr : Dual.tracked operands = []
  · refine ⟨u, .constant x, le_rfl, hu, Dual.ofOperation_of_constant htr _ x, ?_⟩
    refine ⟨fun _ hh => (nomatch hh), rfl, fun k => ?_⟩
    simp only [← sum_tracked, htr]
    rfl
  · have hl := Dual.live_tracked.2 hlive
    have hpush := hu.push hl
    refine ⟨u.push (Dual.tracked operands), ⟨x, some ⟨u.tape.size, u.tape.nextSerial⟩⟩,
      le_push hl, hpush, ?_, ?_, rfl, fun k => ?_⟩
    · rw [Dual.ofOperation_of_live htr hlive, Trail.push, Tape.record_of_live hl]
    · rintro h ⟨⟩
      refine ⟨?_, by have := hu.size_le; simp only; omega⟩
      simp [Trail.push, Tape.record_of_live hl, Tape.Live, Tape.nodeOf, Tape.size]
    · simp only [Trail.slope, Trail.push, Option.elim_some, Function.update_self, sum_tracked]

/-- The trail of a tape on which the parameters were just recorded. -/
def start (t : Tape K) (xs : List K) : Trail K where
  tape := (t.leaves xs).2
  slopes i k := if i = t.size + k then 1 else 0

theorem valid_start (t : Tape K) (xs : List K) :
    (start t xs).Valid t.size xs.length := by
  have hleaf : ∀ i, t.size ≤ i → ∀ node, (t.leaves xs).2.nodes[i]? = some node →
      node.operands = [] := by
    intro i hi node hnode
    rw [Tape.getElem?_leaves, if_neg (by omega)] at hnode
    split at hnode
    · rw [← Option.some.inj hnode]
    · cases hnode
  refine ⟨fun i hi node hnode o ho => ?_, (Tape.size_leaves t xs).ge, fun k hk => ⟨?_, ?_⟩⟩
  · rw [hleaf i hi node hnode] at ho
    cases ho
  · exact fun i hi => if_neg (by omega)
  · intro i hi node hnode
    rw [hleaf i hi node hnode, List.map_nil, List.sum_nil, add_zero]
    rfl

theorem holds_start (t : Tape K) (xs : List K) :
    ∀ x ∈ Dual.leavesFrom t.size t.nextSerial xs, (start t xs).Holds t.size x := by
  intro x hx
  obtain ⟨⟨v, i⟩, hi, rfl⟩ := List.mem_map.1 hx
  have hlt : i < xs.length := (List.mem_zipIdx' hi).1
  rintro h ⟨⟩
  refine ⟨?_, by simp only; omega⟩
  simp only [Tape.Live, start, Tape.getElem?_leaves]
  rw [if_neg (by omega), if_pos (by omega), Option.map_some, Nat.add_sub_cancel_left]

theorem traces_start (t : Tape K) (xs : List K) :
    List.Forall₂ (Traces t.size (start t xs)) (Dual.leavesFrom t.size t.nextSerial xs)
      (Tangent.params xs) := by
  have hholds := holds_start t xs
  rw [Dual.leavesFrom] at hholds ⊢
  rw [Tangent.params, List.forall₂_map_left_iff, List.forall₂_map_right_iff, List.forall₂_same]
  rintro ⟨x, i⟩ hi
  refine ⟨hholds _ (List.mem_map_of_mem hi), rfl, fun k => ?_⟩
  simp only [Trail.slope, start, Option.elim_some, Tangent.param, Nat.add_left_cancel_iff]

end Trail

section Tracing

variable {K : Type} [Field K] [DecidableEq K] [Elementary K]

/-- Recording on a tape and computing derivatives forward go together. -/
def tracing (home : Home) (mark n : Nat) :
    Simulation (Trail K) (Interpretation.recorded home) (Interpretation.forward (R := K)) where
  states u w w' := w.tape home = u.tape ∧ u.Valid mark n ∧ w.outlet = w'.outlet
  values := Trail.Traces mark
  mono huv h := h.mono huv
  primal h := h.value
  constant := Trail.traces_constant
  outlet h := h.2.2
  setOutlet _ h := ⟨h.1, h.2.1, rfl⟩
  log _ h := h
  unary := by
    rintro u w w' x y f ⟨ht, hu, ho⟩ hx
    simp only [Interpretation.recorded, Interpretation.forward, Run.onTape, ht, Dual.unary]
    split
    · exact ⟨u, le_rfl, ⟨Workspace.tape_setTape .., hu, (Workspace.outlet_setTape ..).trans ho⟩,
        .error _⟩
    · obtain ⟨v, z, huv, hv, hop, hz⟩ := Trail.ofOperation_spec hu
        [(x, f.slope x.value)] (by simpa using hx.holds) (f.value x.value)
      rw [hop]
      refine ⟨v, huv, ⟨Workspace.tape_setTape .., hv, (Workspace.outlet_setTape ..).trans ho⟩,
        .ok ?_⟩
      simpa [Tangent.unary, ← hx.value, ← hx.slope] using hz
  binary := by
    rintro u w w' x y x' y' f ⟨ht, hu, ho⟩ hx hx'
    simp only [Interpretation.recorded, Interpretation.forward, Run.onTape, ht, Dual.binary]
    obtain ⟨v, z, huv, hv, hop, hz⟩ := Trail.ofOperation_spec hu
      [(x, (f.slopes x.value x'.value).1), (x', (f.slopes x.value x'.value).2)]
      (by simpa using ⟨hx.holds, hx'.holds⟩) (f.value x.value x'.value)
    rw [hop]
    refine ⟨v, huv, ⟨Workspace.tape_setTape .., hv, (Workspace.outlet_setTape ..).trans ho⟩,
      .ok ?_⟩
    simpa [Tangent.binary, ← hx.value, ← hx.slope, ← hx'.value, ← hx'.slope] using hz

end Tracing

section Gradient

variable {K : Type} [Field K]

/-- The derivatives of a recorded number with respect to the parameters are on the trail. -/
theorem Trail.slope_eq {mark : Nat} {u : Trail K} {out x : Dual K} {k : Nat}
    (hout : u.Holds mark out) (hx : x.index? = some (mark + k)) :
    Tape.slope (fun j i => u.slopes i (j - mark)) mark out x = u.slope out k := by
  rw [Tape.slope, Tape.offset?_eq_some.2 hx]
  unfold Trail.slope
  cases hh : out.handle with
  | none => rw [Tape.offset?, Dual.index?, hh]; rfl
  | some h =>
    have hmark := (hout h hh).2
    have hindex : out.index? = some (mark + (h.index - mark)) := by
      rw [Dual.index?, hh, Option.map_some, Nat.add_sub_cancel' hmark]
    rw [Tape.offset?_eq_some.2 hindex]
    simp only [Nat.add_sub_cancel_left, Nat.add_sub_cancel' hmark, Option.elim_some]

variable [DecidableEq K]

/-- **The sweep reads the derivatives of a result off the trail.** -/
theorem Trail.Traces.gradient_eq {mark serial : Nat} {u : Trail K} {out : Dual K} {y : Tangent K}
    (hout : Traces mark u out y) {xs : List K} (hu : u.Valid mark xs.length)
    (hvars : ∀ x ∈ Dual.leavesFrom mark serial xs, u.Holds mark x) :
    u.tape.gradient mark out (Dual.leavesFrom mark serial xs) =
      .ok ((List.range xs.length).map y.slopes) := by
  have hrule : ∀ x ∈ Dual.leavesFrom mark serial xs, ∀ k, x.index? = some (mark + k) →
      u.tape.ChainRule mark (mark + k) fun i => u.slopes i (mark + k - mark) := by
    intro x hx k hk
    obtain ⟨⟨v, i⟩, hi, rfl⟩ := List.mem_map.1 hx
    have hik : mark + i = mark + k := Option.some.inj hk
    have hlt : i < xs.length := (List.mem_zipIdx' hi).1
    rw [Nat.add_sub_cancel_left]
    exact hu.chainRule k (by omega)
  rw [Tape.gradient_eq_of_chainRule hu.ordered hout.holds.live (fun x hx => (hvars x hx).live)
    (fun j i => u.slopes i (j - mark)) hrule, Dual.leavesFrom, List.map_map,
    List.range_eq_range', ← List.zipIdx_map_snd 0 xs, List.map_map]
  refine congrArg Except.ok (List.map_congr_left fun p _ => ?_)
  exact (Trail.slope_eq hout.holds rfl).trans (hout.slope p.2)

variable [Elementary K]

/-- **Recording and sweeping compute the forward derivatives.** -/
theorem gradientAt_eq_forward (home : Home) (xs : List K)
    {density : List (Dual K) → Run K (Dual K)} {density' : List (Tangent K) → Run K (Tangent K)}
    (h : ∀ mark {u w w' vars params}, (tracing home mark xs.length).states u w w' →
      List.Forall₂ (Trail.Traces mark u) vars params →
      (tracing home mark xs.length).Agree (Trail.Traces mark) u (density vars w)
        (density' params w'))
    {report : Nat → Run K Unit} (hreport : ∀ mark w, (report mark w).1 = .ok ())
    {w w' : Workspace K} (ho : w.outlet = w'.outlet) :
    (gradientAt home xs density report w).1 =
      (density' (Tangent.params xs) w').1.map fun y =>
        (y.value, (List.range xs.length).map y.slopes) := by
  have hstart : (tracing home (w.tape home).size xs.length).states
      (Trail.start (w.tape home) xs) (w.setTape ((w.tape home).leaves xs).2 home) w' :=
    ⟨Workspace.tape_setTape .., Trail.valid_start _ _, (Workspace.outlet_setTape ..).trans ho⟩
  obtain ⟨u, hle, ⟨ht, hu, -⟩, hr⟩ := h _ hstart (Trail.traces_start (w.tape home) xs)
  have hvars : ((w.tape home).leaves xs).1 =
      Dual.leavesFrom (w.tape home).size (w.tape home).nextSerial xs := by
    rw [Tape.leaves_eq]
  rw [← hvars] at ht hr
  simp only [gradientAt, Run.withScope, Action.withScope, Run.leaves, Run.gradient, Run.onTape,
    Bind.bind, Except.mapError]
  generalize density ((w.tape home).leaves xs).1 _ = out at ht hr
  generalize density' (Tangent.params xs) w' = out' at hr
  obtain ⟨a, v⟩ := out
  obtain ⟨b, v'⟩ := out'
  cases hr with
  | error s => rfl
  | @ok out y htrace =>
    have hgrad := htrace.gradient_eq hu fun x hx => (Trail.holds_start _ xs x hx).mono hle
    simp only at ht
    simp only [ht, hvars, hgrad]
    have hrep := hreport (w.tape home).size (v.setTape u.tape home)
    generalize report (w.tape home).size (v.setTape u.tape home) = r at hrep
    obtain ⟨a, v''⟩ := r
    subst hrep
    rw [Except.map, ← htrace.value]
    rfl

end Gradient

end LogDensity
