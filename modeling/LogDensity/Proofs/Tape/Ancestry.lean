import LogDensity.Proofs.Evaluation.Workspace
import LogDensity.Proofs.Tape.Paths
import LogDensity.Proofs.Tape.Staleness
import LogDensity.Proofs.Tape.Sweeping
import LogDensity.Scalar.Datum

/-!
# What a gradient depends on

A sweep passes every node from the mark up to the result, but only some of them matter: those that
a path leads to from the result (`Tape.Ancestor`). The adjoint of any other node is still the zero
that it started with when its turn comes, and a zero adjoint is not passed on. So the partial
derivatives of such a node are never multiplied with anything, and it does no harm if they are
infinite or not a number. No law of arithmetic is used, except that zero passes the test for zero.

The argument compares two sweeps over tapes that agree on the ancestors. Side by side they hold the
same adjoints, and zero outside of the ancestors (`Concord`); each node keeps this
(`Concord.sweep`).

* `Tape.gradient_eq_of_ancestors`: tapes that agree on the ancestors of a result give the same
  gradient, bit for bit.
* `ScopedTape.Reachable.getElem?_run`: as long as a handle is live, no node at or before it changes.
* `ScopedTape.Reachable.gradient_determined`: on a reachable tape the gradient is determined by the
  ancestors, and stays the same whatever happens later.
-/

namespace LogDensity

variable {R : Type}

namespace Tape

/-! ## Ancestors -/

/-- The node at `i` was recorded at or after the mark, and a path leads to it from the result. -/
def Ancestor (t : Tape R) (mark : Nat) (out : Dual R) (i : Nat) : Prop :=
  mark ≤ i ∧ ∃ j, out.index? = some j ∧ Nonempty (t.Path i j)

theorem ancestor_self {t : Tape R} {mark i : Nat} {out : Dual R}
    (h : out.index? = some (mark + i)) : t.Ancestor mark out (mark + i) :=
  ⟨Nat.le_add_right mark i, mark + i, h, ⟨.here⟩⟩

/-- Operands of ancestors are ancestors, unless they come before the mark. -/
theorem Ancestor.operand {t : Tape R} {mark i : Nat} {out : Dual R} (h : t.Ancestor mark out i)
    {node : Node R} (hnode : t.nodes[i]? = some node) {o : Nat × R} (ho : o ∈ node.operands)
    (hmark : mark ≤ o.1) : t.Ancestor mark out o.1 := by
  obtain ⟨-, j, hj, ⟨p⟩⟩ := h
  obtain ⟨k, hk, rfl⟩ := List.getElem_of_mem ho
  exact ⟨hmark, j, hj, ⟨p.extend hnode ⟨k, hk⟩⟩⟩

/-- Ancestors come at or before the result. -/
theorem Ancestor.le {t : Tape R} (ho : t.OrderedFrom 0) {mark i : Nat} {out : Dual R} {h : Handle}
    (hi : t.Ancestor mark out i) (hh : out.handle = some h) : i ≤ h.index := by
  obtain ⟨-, j, hj, ⟨p⟩⟩ := hi
  rw [Dual.index?, hh, Option.map_some] at hj
  obtain rfl := Option.some.inj hj
  exact p.le ho

/-! ## Two sweeps side by side -/

section Concord

variable [Zero R]

/-- Two lists of adjoints, counted from the mark, are the same, and zero outside of `A`. -/
structure Concord (A : Nat → Prop) (mark : Nat) (xs ys : Array R) : Prop where
  eq : ∀ i : Nat, xs[i]?.getD 0 = ys[i]?.getD 0
  zero : ∀ i : Nat, ¬ A (mark + i) → xs[i]?.getD 0 = 0

namespace Concord

variable {A : Nat → Prop} {mark : Nat} {xs ys : Array R}

/-- Zeros agree, however many there are. -/
theorem replicate (A : Nat → Prop) (mark m n : Nat) :
    Concord A mark (Array.replicate m (0 : R)) (Array.replicate n 0) := by
  have hzero (n i : Nat) : (Array.replicate n (0 : R))[i]?.getD 0 = 0 := by
    rw [Array.getElem?_replicate]
    split <;> rfl
  exact ⟨fun i => (hzero m i).trans (hzero n i).symm, fun i _ => hzero m i⟩

/-- The same adjoint is put in the same place. -/
theorem set (h : Concord A mark xs ys) {k : Nat} (hx : k < xs.size) (hy : k < ys.size)
    (hk : A (mark + k)) (x : R) :
    Concord A mark (xs.setIfInBounds k x) (ys.setIfInBounds k x) := by
  constructor
  · intro i
    simp only [Array.getElem?_setIfInBounds]
    by_cases hi : k = i
    · subst hi
      simp [hx, hy]
    · simpa [hi] using h.eq i
  · intro i hi
    have hne : k ≠ i := by
      rintro rfl
      exact hi hk
    rw [Array.getElem?_setIfInBounds_ne hne]
    exact h.zero i hi

variable [Add R] [Mul R]

/-- The same adjoint is spread over the same operands. -/
theorem spread (h : Concord A mark xs ys) (a : R) {operands : List (Nat × R)}
    (hx : ∀ o ∈ operands, o.1 < mark + xs.size) (hy : ∀ o ∈ operands, o.1 < mark + ys.size)
    (hA : ∀ o ∈ operands, mark ≤ o.1 → A o.1) :
    ∃ xs' ys', Tape.spread mark a operands xs = .ok xs' ∧
      Tape.spread mark a operands ys = .ok ys' ∧ xs'.size = xs.size ∧ ys'.size = ys.size ∧
      Concord A mark xs' ys' := by
  induction operands generalizing xs ys with
  | nil => exact ⟨xs, ys, rfl, rfl, rfl, rfl, h⟩
  | cons o operands ih =>
    obtain ⟨i, p⟩ := o
    have hix : i < mark + xs.size := hx (i, p) List.mem_cons_self
    have hiy : i < mark + ys.size := hy (i, p) List.mem_cons_self
    have htailx : ∀ o ∈ operands, o.1 < mark + xs.size :=
      fun o ho => hx o (List.mem_cons_of_mem _ ho)
    have htaily : ∀ o ∈ operands, o.1 < mark + ys.size :=
      fun o ho => hy o (List.mem_cons_of_mem _ ho)
    have htailA : ∀ o ∈ operands, mark ≤ o.1 → A o.1 :=
      fun o ho => hA o (List.mem_cons_of_mem _ ho)
    by_cases him : i < mark
    · simp only [Tape.spread, if_pos him]
      exact ih h htailx htaily htailA
    · have hkx : i - mark < xs.size := by omega
      have hky : i - mark < ys.size := by omega
      have hplace : mark + (i - mark) = i := by omega
      have hsame : xs[i - mark] = ys[i - mark] := by
        simpa [Array.getElem?_eq_getElem hkx, Array.getElem?_eq_getElem hky] using h.eq (i - mark)
      have hAi : A (mark + (i - mark)) := by
        rw [hplace]
        exact hA (i, p) List.mem_cons_self (Nat.le_of_not_lt him)
      have hset := h.set hkx hky hAi (ys[i - mark] + a * p)
      obtain ⟨xs', ys', hxs, hys, hsx, hsy, hconcord⟩ := ih hset
        (by simpa only [Array.size_setIfInBounds] using htailx)
        (by simpa only [Array.size_setIfInBounds] using htaily) htailA
      rw [Array.size_setIfInBounds] at hsx hsy
      refine ⟨xs', ys', ?_, ?_, hsx, hsy, hconcord⟩
      · simp only [Tape.spread, if_neg him, Array.getElem?_eq_getElem hkx, hsame, hxs]
      · simp only [Tape.spread, if_neg him, Array.getElem?_eq_getElem hky, hys]

variable [BEq R] {t t' : Tape R}

/-- **Sweeps over tapes that agree on a set of nodes.** The set contains the operands of its nodes,
and outside of it adjoints are zero, so that no other node is ever read. -/
theorem sweep (hzero : ((0 : R) == 0) = true) (ho : t.OrderedFrom mark)
    (hclosed : ∀ i, mark ≤ i → A i → ∀ node, t.nodes[i]? = some node →
      ∀ o ∈ node.operands, mark ≤ o.1 → A o.1)
    (hsame : ∀ i, mark ≤ i → A i →
      (t'.nodes[i]?).map Node.operands = (t.nodes[i]?).map Node.operands)
    {n : Nat} (hn : n ≤ xs.size) (hn' : n ≤ ys.size) (ht : mark + n ≤ t.size)
    (ht' : mark + n ≤ t'.size) (h : Concord A mark xs ys) :
    ∃ xs' ys', t.sweep mark n xs = .ok xs' ∧ t'.sweep mark n ys = .ok ys' ∧
      Concord A mark xs' ys' := by
  induction n generalizing xs ys with
  | zero => exact ⟨xs, ys, rfl, rfl, h⟩
  | succ n ih =>
    have hnode : t.nodes[mark + n]? = some t.nodes[mark + n] := Array.getElem?_eq_getElem ht
    have hnode' : t'.nodes[mark + n]? = some t'.nodes[mark + n] := Array.getElem?_eq_getElem ht'
    have hadjoint : xs[n] = ys[n] := by
      simpa [Array.getElem?_eq_getElem hn, Array.getElem?_eq_getElem hn'] using h.eq n
    rw [Tape.sweep, Tape.sweep, hnode, hnode', Array.getElem?_eq_getElem hn,
      Array.getElem?_eq_getElem hn', hadjoint]
    simp only
    by_cases hskip : (ys[n] == 0) = true
    · rw [if_pos hskip, if_pos hskip]
      exact ih (by omega) (by omega) (by omega) (by omega) h
    · -- a node that is read belongs to the set
      have hA : A (mark + n) := by
        by_contra hnot
        have hz := h.zero n hnot
        rw [Array.getElem?_eq_getElem hn, Option.getD_some, hadjoint] at hz
        rw [hz] at hskip
        exact hskip hzero
      have hoperands : t'.nodes[mark + n].operands = t.nodes[mark + n].operands := by
        simpa [hnode, hnode'] using hsame (mark + n) (by omega) hA
      have hback : ∀ o ∈ t.nodes[mark + n].operands, o.1 < mark + n :=
        ho (mark + n) (by omega) _ hnode
      obtain ⟨xs', ys', hxs, hys, hsx, hsy, hconcord⟩ := h.spread ys[n]
        (fun o ho => by have := hback o ho; omega) (fun o ho => by have := hback o ho; omega)
        (hclosed (mark + n) (by omega) hA _ hnode)
      rw [if_neg hskip, if_neg hskip, hoperands, hxs, hys]
      exact ih (by omega) (by omega) (by omega) (by omega) hconcord

end Concord

end Concord

/-! ## The gradient -/

/-- The tape with other partial derivatives: that of operand number `k` of the node at `i` is
changed by `f i k`. -/
def reweighed (t : Tape R) (f : Nat → Nat → R → R) : Tape R :=
  { t with
    nodes := t.nodes.mapIdx fun i node =>
      { node with operands := node.operands.mapIdx fun k o => (o.1, f i k o.2) } }

theorem live_reweighed (t : Tape R) (f : Nat → Nat → R → R) (h : Handle) :
    (t.reweighed f).Live h ↔ t.Live h := by
  simp only [Live, reweighed, Array.getElem?_mapIdx, Option.map_map]
  rfl

section Gradient

variable [Add R] [Mul R] [Zero R] [One R] [BEq R] {t t' : Tape R} {mark : Nat}

/-- Adjoints of results at the same position, on tapes that agree on the ancestors. -/
theorem exists_concord (hzero : ((0 : R) == 0) = true) (ho : t.OrderedFrom mark)
    {out out' : Dual R} (hout : out.Live t) (hout' : out'.Live t')
    (hindex : out'.index? = out.index?)
    (hsame : ∀ i, t.Ancestor mark out i →
      (t'.nodes[i]?).map Node.operands = (t.nodes[i]?).map Node.operands) :
    ∃ xs ys, t.adjoints mark out = .ok xs ∧ t'.adjoints mark out' = .ok ys ∧
      Concord (t.Ancestor mark out) mark xs ys := by
  have hoff : offset? mark out' = offset? mark out := by rw [offset?, offset?, hindex]
  have hstart := Concord.replicate (R := R) (t.Ancestor mark out) mark (t.size - mark)
    (t'.size - mark)
  unfold adjoints
  rw [hoff]
  cases hi : offset? mark out with
  | none => exact ⟨_, _, rfl, rfl, hstart⟩
  | some i =>
    have hplace : out.index? = some (mark + i) := offset?_eq_some.1 hi
    have hlt : mark + i < t.size := by
      obtain ⟨h, hh, heq⟩ := Option.map_eq_some_iff.1 hplace
      exact heq ▸ (hout h hh).index_lt
    have hlt' : mark + i < t'.size := by
      obtain ⟨h, hh, heq⟩ := Option.map_eq_some_iff.1 (hindex.trans hplace)
      exact heq ▸ (hout' h hh).index_lt
    simp only [Array.size_replicate]
    rw [if_pos (by omega), if_pos (by omega)]
    refine Concord.sweep hzero ho (fun k _ hk node hnode o ho hm => hk.operand hnode ho hm)
      (fun k _ hk => hsame k hk) (by simp; omega) (by simp; omega) (by omega) (by omega) ?_
    exact hstart.set (by simp; omega) (by simp; omega) (ancestor_self hplace) 1

/-- **A gradient is determined by the ancestors of the result.** On a tape where these have the same
operands and partial derivatives, numbers at the same positions have the same derivatives. -/
theorem gradient_eq_of_ancestors (hzero : ((0 : R) == 0) = true) (ho : t.OrderedFrom mark)
    {out out' : Dual R} {wrt wrt' : List (Dual R)} (hout : out.Live t)
    (hwrt : ∀ x ∈ wrt, x.Live t) (hout' : out'.Live t') (hwrt' : ∀ x ∈ wrt', x.Live t')
    (hindex : out'.index? = out.index?) (hindices : wrt'.map Dual.index? = wrt.map Dual.index?)
    (hsame : ∀ i, t.Ancestor mark out i →
      (t'.nodes[i]?).map Node.operands = (t.nodes[i]?).map Node.operands) :
    t'.gradient mark out' wrt' = t.gradient mark out wrt := by
  obtain ⟨xs, ys, hxs, hys, hconcord⟩ := exists_concord hzero ho hout hout' hindex hsame
  -- an entry depends on the position of the number only
  let entry (adjoints : Array R) (i? : Option Nat) : R :=
    ((i?.bind fun i => if i < mark then none else some (i - mark)).bind
      fun i => adjoints[i]?).getD 0
  have hentry (i? : Option Nat) : entry ys i? = entry xs i? := by
    simp only [entry]
    cases i?.bind fun i => if i < mark then none else some (i - mark) with
    | none => rfl
    | some i => exact (hconcord.eq i).symm
  have hlist (adjoints : Array R) (wrt : List (Dual R)) :
      (wrt.map fun x => ((offset? mark x).bind fun i => adjoints[i]?).getD 0) =
        (wrt.map Dual.index?).map (entry adjoints) := by
    rw [List.map_map]
    rfl
  rw [gradient, gradient, if_pos (List.forall_mem_cons.2 ⟨hout, hwrt⟩),
    if_pos (List.forall_mem_cons.2 ⟨hout', hwrt'⟩), hxs, hys]
  simp only [Except.map]
  rw [hlist, hlist, hindices]
  refine congrArg Except.ok ?_
  exact List.map_congr_left fun i? _ => hentry i?

/-- Other partial derivatives of nodes that are no ancestors do not show. -/
theorem gradient_reweighed (hzero : ((0 : R) == 0) = true) (ho : t.OrderedFrom mark)
    {out : Dual R} {wrt : List (Dual R)} (hout : out.Live t) (hwrt : ∀ x ∈ wrt, x.Live t)
    {f : Nat → Nat → R → R} (hf : ∀ i, t.Ancestor mark out i → ∀ k p, f i k p = p) :
    (t.reweighed f).gradient mark out wrt = t.gradient mark out wrt := by
  have hlive {x : Dual R} (hx : x.Live t) : x.Live (t.reweighed f) :=
    fun h hh => (live_reweighed t f h).2 (hx h hh)
  refine gradient_eq_of_ancestors hzero ho hout hwrt (hlive hout) (fun x hx => hlive (hwrt x hx))
    rfl rfl fun i hi => ?_
  simp only [reweighed, Array.getElem?_mapIdx, Option.map_map]
  refine Option.map_congr fun node _ => ?_
  simp only [Function.comp, hf i hi]
  exact List.mapIdx_eq_iff.2 fun k => by simp

end Gradient

end Tape

/-- A sweep on a tape of a workspace leaves the workspace as it is. -/
theorem Run.gradient_eq [Scalar R] (home : Home) (mark : Nat) (out : Dual R)
    (wrt : List (Dual R)) (w : Workspace R) :
    Run.gradient home mark out wrt w =
      (((w.tape home).gradient mark out wrt).mapError .breach, w) :=
  Run.onTape_look ..

/-! ## What happens later -/

namespace ScopedTape

variable {s : ScopedTape R}

/-- **As long as a handle is live, no node at or before it changes.** -/
theorem Reachable.getElem?_run (hs : s.Reachable) {h : Handle} {later : List (Event R)}
    (hl : s.tape.Live h) (hl' : (s.run later).tape.Live h) {i : Nat} (hi : i ≤ h.index) :
    (s.run later).tape.nodes[i]? = s.tape.nodes[i]? := by
  have hissued {i : Nat} {node : Node R} (hnode : s.tape.nodes[i]? = some node) :
      s.tape.Issued ⟨i, node.serial⟩ :=
    hs.numbered.lt_next node (Array.mem_toList_iff.2 (Array.mem_of_getElem? hnode))
  -- the handle is still live, so that no scope was closed with a mark at or before it
  have hcuts : ∀ mark ∈ s.cuts later, h.index < mark := by
    obtain ⟨node, hnode, hserial⟩ := Option.map_eq_some_iff.1 hl
    obtain ⟨node', hfind⟩ := Option.isSome_iff_exists.1 (Tape.live_iff_find?.1 hl')
    have hh : s.tape.Issued h := by
      have := hissued hnode
      rwa [hserial] at this
    exact ((find?_run_eq_some hh later).1 hfind).2
  have hlt : i < s.tape.size := Nat.lt_of_le_of_lt hi hl.index_lt
  have hnode : s.tape.nodes[i]? = some s.tape.nodes[i] := Array.getElem?_eq_getElem hlt
  have hfind : s.tape.find? ⟨i, s.tape.nodes[i].serial⟩ = some s.tape.nodes[i] :=
    Tape.find?_eq_some.2 ⟨hnode, rfl⟩
  have hrun := (find?_run_eq_some (hissued hnode) later).2
    ⟨hfind, fun mark hm => Nat.lt_of_le_of_lt hi (hcuts mark hm)⟩
  rw [(Tape.find?_eq_some.1 hrun).1, hnode]

variable [Add R] [Mul R] [Zero R] [One R] [BEq R]

/-- A gradient stays the same as long as the numbers are live. -/
theorem Reachable.gradient_run (hzero : ((0 : R) == 0) = true) (hs : s.Reachable) (mark : Nat)
    {out : Dual R} {wrt : List (Dual R)} (hout : out.Live s.tape) (hwrt : ∀ x ∈ wrt, x.Live s.tape)
    {later : List (Event R)} (hout' : out.Live (s.run later).tape)
    (hwrt' : ∀ x ∈ wrt, x.Live (s.run later).tape) :
    (s.run later).tape.gradient mark out wrt = s.tape.gradient mark out wrt := by
  have ho : s.tape.OrderedFrom mark := fun i _ => hs.ordered i (Nat.zero_le i)
  refine Tape.gradient_eq_of_ancestors hzero ho hout hwrt hout' hwrt' rfl rfl fun i hi => ?_
  cases hh : out.handle with
  | none =>
    -- a constant has no ancestors
    obtain ⟨-, j, hj, -⟩ := hi
    rw [Dual.index?, hh] at hj
    cases hj
  | some h => rw [hs.getElem?_run (hout h hh) (hout' h hh) (hi.le hs.ordered hh)]

/-- **A gradient is determined by the ancestors of the result, and stays the same.** On a reachable
tape of floating-point numbers, with any mark (that of an open scope, say), the gradient of a live
result with respect to live numbers is there, with one entry for each. It is the same on every tape
where the ancestors of the result have the same operands and partial derivatives, in particular if
other partial derivatives are changed to anything. As long as the result and the numbers are live,
it stays the same whatever is recorded, opened and closed later; and sweeps leave no trace. -/
theorem Reachable.gradient_determined {s : ScopedTape Datum} (hs : s.Reachable) (mark : Nat)
    {out : Dual Datum} {wrt : List (Dual Datum)} (hout : out.Live s.tape)
    (hwrt : ∀ x ∈ wrt, x.Live s.tape) :
    ∃ partials, s.tape.gradient mark out wrt = .ok partials ∧ partials.length = wrt.length ∧
      (∀ (t : Tape Datum) (out' : Dual Datum) (wrt' : List (Dual Datum)), out'.Live t →
        (∀ x ∈ wrt', x.Live t) → out'.index? = out.index? →
        wrt'.map Dual.index? = wrt.map Dual.index? →
        (∀ i, s.tape.Ancestor mark out i →
          (t.nodes[i]?).map Node.operands = (s.tape.nodes[i]?).map Node.operands) →
        t.gradient mark out' wrt' = .ok partials) ∧
      (∀ f, (∀ i, s.tape.Ancestor mark out i → ∀ k p, f i k p = p) →
        (s.tape.reweighed f).gradient mark out wrt = .ok partials) ∧
      (∀ later, out.Live (s.run later).tape → (∀ x ∈ wrt, x.Live (s.run later).tape) →
        (s.run later).tape.gradient mark out wrt = .ok partials) ∧
      ∀ (home : Home) (w : Workspace Datum), w.tape home = s.tape →
        Run.gradient home mark out wrt w = (.ok partials, w) ∧
          ∀ mark' out' wrt', (Run.gradient home mark' out' wrt' w).2 = w := by
  have hzero : ((0 : Datum) == 0) = true := by decide
  have ho : s.tape.OrderedFrom mark := fun i _ => hs.ordered i (Nat.zero_le i)
  obtain ⟨partials, hok, hlength⟩ := Tape.gradient_eq_ok ho hout hwrt
  refine ⟨partials, hok, hlength, ?_, ?_, ?_, ?_⟩
  · intro t out' wrt' hout' hwrt' hindex hindices hsame
    rw [Tape.gradient_eq_of_ancestors hzero ho hout hwrt hout' hwrt' hindex hindices hsame, hok]
  · intro f hf
    rw [Tape.gradient_reweighed hzero ho hout hwrt hf, hok]
  · intro later hout' hwrt'
    rw [hs.gradient_run hzero mark hout hwrt hout' hwrt', hok]
  · intro home w hw
    refine ⟨?_, fun mark' out' wrt' => ?_⟩
    · rw [Run.gradient_eq, hw, hok]
      rfl
    · rw [Run.gradient_eq]

/-- A variable, a node with partial derivatives that are infinite and not a number, and the square
of the variable. -/
def squareBesideNaN : ScopedTape Datum :=
  run {} [.openScope, .record [], .record [(⟨0, 0⟩, 1 / 0), (⟨0, 0⟩, 0 / 0)],
    .record [(⟨0, 0⟩, 1 + 1), (⟨0, 0⟩, 1 + 1)]]

theorem gradient_squareBesideNaN :
    let x : Dual Datum := ⟨1 + 1, some ⟨0, 0⟩⟩
    let square : Dual Datum := ⟨1 + 1 + 1 + 1, some ⟨2, 2⟩⟩
    let s := squareBesideNaN
    let later : List (Event Datum) :=
      [.openScope, .record [(⟨2, 2⟩, 0 / 0)], .closeScope 0, .record [(⟨1, 1⟩, 1 / 0)]]
    let f : Nat → Nat → Datum → Datum := fun i _ p => if i = 1 then 1 else p
    s.Reachable ∧ square.Live s.tape ∧ (∀ v ∈ [x, .constant 1], v.Live s.tape) ∧
      square.Live (s.run later).tape ∧ ¬ s.tape.Ancestor 0 square 1 ∧
      ∃ partials, s.tape.gradient 0 square [x, .constant 1] = .ok partials ∧
        (s.run later).tape.gradient 0 square [x, .constant 1] = .ok partials ∧
        (s.tape.reweighed f).gradient 0 square [x, .constant 1] = .ok partials := by
  intro x square s later f
  have hs : s.Reachable := ⟨_, rfl⟩
  have hout : square.Live s.tape := by decide
  have hwrt : ∀ v ∈ [x, .constant 1], v.Live s.tape := by decide
  have hout' : square.Live (s.run later).tape := by decide
  have hwrt' : ∀ v ∈ [x, .constant 1], v.Live (s.run later).tape := by decide
  have hdead : ¬ s.tape.Ancestor 0 square 1 := by
    rintro ⟨-, j, hj, ⟨p⟩⟩
    obtain rfl := Option.some.inj hj
    -- the operands of the square come before the node in question
    cases p with
    | down node hnode k rest =>
      obtain rfl := Option.some.inj hnode
      have hle := rest.le hs.ordered
      match k with
      | ⟨0, _⟩ => exact Nat.not_succ_le_zero 0 hle
      | ⟨1, _⟩ => exact Nat.not_succ_le_zero 0 hle
  obtain ⟨partials, hok, -, -, hweights, hlater, -⟩ := hs.gradient_determined 0 hout hwrt
  refine ⟨hs, hout, hwrt, hout', hdead, partials, hok, hlater later hout' hwrt', ?_⟩
  refine hweights f fun i hi k p => if_neg ?_
  rintro rfl
  exact hdead hi

end ScopedTape

end LogDensity
