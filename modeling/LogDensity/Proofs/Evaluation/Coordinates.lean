import LogDensity.Proofs.Evaluation.Neutrality
import LogDensity.Proofs.Evaluation.Response

/-!
# Central differences coordinate by coordinate

For each parameter in turn, central differences ask the interrupt, and evaluate the density with
this parameter moved up and moved down, all others being as they were given: the parameters are
moved in one list, but each is put back (`Model.quotientInPlace_eq`). They end when the interrupt
asks to stop, when an evaluation fails, or when no parameter is left (`Differences.Ending`), and
they do nothing beyond what has led there.

* `Model.quotientAt_part`: how the part for one parameter ends.
* `Model.finiteDifference_ending`: outcome, interrupts asked, text and workspace of central
  differences, for every way in which they can end.
-/

namespace LogDensity

variable {R : Type}

/-- One thing that central differences do. -/
inductive Probe (R : Type)
  /-- Ask the interrupt. -/
  | poll
  /-- Evaluate the density. -/
  | evaluate (params : List R)

/-- How often the interrupt is asked. -/
def Probe.polls : Probe R → Nat
  | poll => 1
  | evaluate _ => 0

/-! ## How central differences end -/

namespace Differences

/-- The first of the parameters that are left. -/
theorem first_of_drop {params : List R} {n k i : Nat} {x : R} {rest : List (R × Nat)}
    (h : (x, i) :: rest = (params.take n).zipIdx.drop k) :
    i = k ∧ k < min n params.length ∧ params[k]? = some x ∧
      rest = (params.take n).zipIdx.drop (k + 1) := by
  have hhead : (params.take n).zipIdx[k]? = some (x, i) := by
    rw [← List.head?_drop, ← h]
    rfl
  obtain ⟨y, hy, hxi⟩ := Option.map_eq_some_iff.1 (List.getElem?_zipIdx.symm.trans hhead)
  obtain ⟨rfl, rfl⟩ := Prod.mk.inj hxi
  obtain ⟨hk, hget⟩ := List.getElem?_eq_some_iff.1 hy
  rw [List.length_take] at hk
  refine ⟨Nat.zero_add k, hk, ?_, ?_⟩
  · rw [← hget, List.getElem_take]
    exact List.getElem?_eq_getElem _
  · rw [← List.tail_drop, ← h, List.tail_cons]

section

variable [Scalar R] (value : List R → Outcome R) (stops : Nat → Bool) (params : List R)
  (epsilon : R)

/-- The parameters with one of them moved up. -/
def above (k : Nat) : List R :=
  params.modify k (· + epsilon)

/-- The parameters with one of them moved down. -/
def below (k : Nat) : List R :=
  params.modify k (· - epsilon)

/-- All that is done for one parameter. -/
def probes (k : Nat) : List (Probe R) :=
  [.poll, .evaluate (above params epsilon k), .evaluate (below params epsilon k)]

/-- All that is done for the parameters before one. -/
def probesBefore (k : Nat) : List (Probe R) :=
  (List.range k).flatMap (probes params epsilon)

/-- The difference quotient of a parameter, for which the interrupt did not ask to stop. -/
def IsQuotient (k : Nat) (q : R) : Prop :=
  stops k = false ∧ ∃ plus minus, value (above params epsilon k) = .ok plus ∧
    value (below params epsilon k) = .ok minus ∧ q = (plus - minus) / (((2 : Int) : R) * epsilon)

/-- The difference quotients of the parameters before one. -/
def Settled (k : Nat) (qs : List R) : Prop :=
  qs.length = k ∧ ∀ j q, qs[j]? = some q → IsQuotient value stops params epsilon j q

/-- How the part for one parameter ends, by what the interrupt answers: with an outcome, after doing
certain things in order. -/
inductive Part (k : Nat) : Bool → Outcome R → List (Probe R) → Prop
  | interrupted : Part k true (.error (.error .interrupted)) [.poll]
  | failsAbove {s : Stop} (hs : value (above params epsilon k) = .error s) :
    Part k false (.error s) [.poll, .evaluate (above params epsilon k)]
  | failsBelow {plus : R} {s : Stop} (hplus : value (above params epsilon k) = .ok plus)
    (hs : value (below params epsilon k) = .error s) :
    Part k false (.error s) (probes params epsilon k)
  | delivers {plus minus : R} (hplus : value (above params epsilon k) = .ok plus)
    (hminus : value (below params epsilon k) = .ok minus) :
    Part k false (.ok ((plus - minus) / (((2 : Int) : R) * epsilon))) (probes params epsilon k)

/-- How central differences for `n` parameters end, given how the density ends at each point and
what the interrupt answers: with an outcome, after asking the interrupt some number of times, and
after doing certain things in order. -/
inductive Ending (n : Nat) : Outcome (List R) → Nat → List (Probe R) → Prop
  | complete {qs : List R} (h : Settled value stops params epsilon n qs) :
    Ending n (.ok qs) n (probesBefore params epsilon n)
  | interrupted {k : Nat} {qs : List R} (hk : k < n) (h : Settled value stops params epsilon k qs)
    (hstop : stops k = true) :
    Ending n (.error (.error .interrupted)) (k + 1) (probesBefore params epsilon k ++ [.poll])
  | failsAbove {k : Nat} {qs : List R} {s : Stop} (hk : k < n)
    (h : Settled value stops params epsilon k qs) (hgo : stops k = false)
    (hs : value (above params epsilon k) = .error s) :
    Ending n (.error s) (k + 1)
      (probesBefore params epsilon k ++ [.poll, .evaluate (above params epsilon k)])
  | failsBelow {k : Nat} {qs : List R} {plus : R} {s : Stop} (hk : k < n)
    (h : Settled value stops params epsilon k qs) (hgo : stops k = false)
    (hplus : value (above params epsilon k) = .ok plus)
    (hs : value (below params epsilon k) = .error s) :
    Ending n (.error s) (k + 1) (probesBefore params epsilon k ++ probes params epsilon k)

variable {value stops params epsilon}

theorem probesBefore_succ (k : Nat) :
    probesBefore params epsilon (k + 1) =
      probesBefore params epsilon k ++ probes params epsilon k := by
  rw [probesBefore, List.range_succ, List.flatMap_append, List.flatMap_singleton, probesBefore]

theorem polls_probesBefore (k : Nat) :
    ((probesBefore params epsilon k).map Probe.polls).sum = k := by
  induction k with
  | zero => rfl
  | succ k ih =>
    rw [probesBefore_succ, List.map_append, List.sum_append, ih]
    rfl

/-- The interrupt is asked as often as the ending says. -/
theorem Ending.polls_eq {n polls : Nat} {outcome : Outcome (List R)} {ps : List (Probe R)}
    (h : Ending value stops params epsilon n outcome polls ps) :
    (ps.map Probe.polls).sum = polls := by
  cases h with
  | complete h => exact polls_probesBefore n
  | interrupted hk h hstop => rw [List.map_append, List.sum_append, polls_probesBefore]; rfl
  | failsAbove hk h hgo hs => rw [List.map_append, List.sum_append, polls_probesBefore]; rfl
  | failsBelow hk h hgo hplus hs => rw [List.map_append, List.sum_append, polls_probesBefore]; rfl

theorem Settled.concat {k : Nat} {qs : List R} (h : Settled value stops params epsilon k qs) {q : R}
    (hq : IsQuotient value stops params epsilon k q) :
    Settled value stops params epsilon (k + 1) (qs ++ [q]) := by
  obtain ⟨rfl, hqs⟩ := h
  refine ⟨List.length_append, fun j r hr => ?_⟩
  rcases Nat.lt_trichotomy j qs.length with hj | rfl | hj
  · rw [List.getElem?_append_left hj] at hr
    exact hqs j r hr
  · obtain rfl : q = r := by simpa using hr
    exact hq
  · rw [List.getElem?_eq_none (by simp; omega)] at hr
    cases hr

theorem Part.isQuotient {k : Nat} {q : R} {ps : List (Probe R)}
    (h : Part value params epsilon k (stops k) (.ok q) ps) :
    IsQuotient value stops params epsilon k q ∧ ps = probes params epsilon k := by
  generalize hstop : stops k = stop at h
  cases h with
  | delivers hplus hminus => exact ⟨⟨hstop, _, _, hplus, hminus, rfl⟩, rfl⟩

/-- A part that does not deliver is the last one. -/
theorem Part.ending {n k : Nat} {qs : List R} {s : Stop} {ps : List (Probe R)}
    (h : Part value params epsilon k (stops k) (.error s) ps) (hk : k < n)
    (hqs : Settled value stops params epsilon k qs) :
    Ending value stops params epsilon n (.error s) (k + 1)
      (probesBefore params epsilon k ++ ps) := by
  generalize hstop : stops k = stop at h
  cases h with
  | interrupted => exact .interrupted hk hqs hstop
  | failsAbove hs => exact .failsAbove hk hqs hstop hs
  | failsBelow hplus hs => exact .failsBelow hk hqs hstop hplus hs

end

end Differences

/-! ## Carrying out -/

namespace Probe

variable [Scalar R] (m : Model R) (interrupt : Nat → Bool) (ints : List Int) (mode : Mode)

/-- Does one thing. -/
def perform (w : Workspace R) : Probe R → Workspace R
  | poll => (Run.poll interrupt w).2
  | evaluate params => (m.logProb params ints mode w).2

/-- What is written to a stream. -/
def texts (s : Messages) : Probe R → List String
  | poll => []
  | evaluate params => (m.response params ints mode s).texts

/-- The workspace after things were done one after the other. -/
def carryOut (probes : List (Probe R)) (w : Workspace R) : Workspace R :=
  probes.foldl (perform m interrupt ints mode) w

theorem carryOut_append (ps qs : List (Probe R)) (w : Workspace R) :
    carryOut m interrupt ints mode (ps ++ qs) w =
      carryOut m interrupt ints mode qs (carryOut m interrupt ints mode ps w) :=
  List.foldl_append

theorem polls_carryOut (probes : List (Probe R)) (w : Workspace R) :
    (carryOut m interrupt ints mode probes w).polls = w.polls + (probes.map polls).sum := by
  induction probes generalizing w with
  | nil => rfl
  | cons p probes ih =>
    have hp : (perform m interrupt ints mode w p).polls = w.polls + p.polls := by
      cases p with
      | poll => rfl
      | evaluate params => exact m.polls_logProb params ints mode w
    rw [List.map_cons, List.sum_cons, ← Nat.add_assoc, ← hp]
    exact ih _

/-- An evaluation on a stream that has the same answers. -/
theorem logProb_on {s s' : Messages} (hs : s'.answers = s.answers) (params : List R)
    {w : Workspace R} (hw : w.outlet = .stream s') :
    (m.logProb params ints mode w).1 = (m.response params ints mode s).outcome ∧
      (m.logProb params ints mode w).2.outlet =
        .stream (s'.writeAll (m.response params ints mode s).texts).2 := by
  have hresponse : m.response params ints mode s' = m.response params ints mode s :=
    Model.response_congr (.inl trivial) params ints mode fun _ => hs
  obtain ⟨houtcome, hhears⟩ := m.logProb_eq_response params ints mode w
  have houtlet := hhears.outlet
  rw [hw, Diagnostics.feed, hresponse] at houtcome houtlet
  exact ⟨houtcome, houtlet⟩

theorem outlet_carryOut {s s' : Messages} (hs : s'.answers = s.answers) (probes : List (Probe R))
    {w : Workspace R} (hw : w.outlet = .stream s') :
    (carryOut m interrupt ints mode probes w).outlet =
      .stream (s'.writeAll (probes.flatMap (texts m ints mode s))).2 := by
  induction probes generalizing w s' with
  | nil => exact hw
  | cons p probes ih =>
    have hp : (perform m interrupt ints mode w p).outlet =
        .stream (s'.writeAll (p.texts m ints mode s)).2 := by
      cases p with
      | poll => exact hw
      | evaluate params => exact (logProb_on m ints mode hs params hw).2
    rw [List.flatMap_cons, Messages.writeAll_append]
    exact ih ((Messages.answers_writeAll ..).trans hs) hp

end Probe

namespace Model

open Differences Probe

variable [Scalar R] (m : Model R) (interrupt : Nat → Bool) (params : List R) (ints : List Int)
  (mode : Mode) (epsilon : R)

/-- The two evaluations for one parameter, or the first one if it fails. -/
theorem quotient_part {s s' : Messages} (hs : s'.answers = s.answers) {w : Workspace R}
    (hw : w.outlet = .stream s') {x : R} {k : Nat} (hx : params[k]? = some x) :
    let value p := (m.response p ints mode s).outcome
    let out := m.quotient params ints mode epsilon x k w
    ∃ ps, Part value params epsilon k false out.1 (.poll :: ps) ∧
      out.2 = carryOut m interrupt ints mode ps w := by
  intro value out
  let up := above params epsilon k
  let down := below params epsilon k
  have hset (f : R → R) : params.set k (f x) = params.modify k f := by
    rw [List.modify_eq_set_getElem?, hx]
    rfl
  have hout : out = (m.logProb up ints mode >>= fun plus => m.logProb down ints mode >>=
      fun minus => pure ((plus - minus) / (((2 : Int) : R) * epsilon))) w := by
    simp only [out, quotient, hset (· + epsilon), hset (· - epsilon)]
    rfl
  obtain ⟨hplus, houtlet⟩ := logProb_on m ints mode hs up hw
  cases hup : m.logProb up ints mode w with
  | mk a v =>
    rw [hup] at hplus houtlet
    have hafter : carryOut m interrupt ints mode [.evaluate up] w = v := congrArg Prod.snd hup
    cases a with
    | error e =>
      rw [hout, Run.bind_of_error hup]
      exact ⟨[.evaluate up], .failsAbove hplus.symm, hafter.symm⟩
    | ok plus =>
      obtain ⟨hminus, -⟩ :=
        logProb_on m ints mode ((Messages.answers_writeAll ..).trans hs) down houtlet
      cases hdown : m.logProb down ints mode v with
      | mk b u =>
        rw [hdown] at hminus
        have hboth : carryOut m interrupt ints mode [.evaluate up, .evaluate down] w = u := by
          rw [← List.singleton_append, carryOut_append, hafter]
          exact congrArg Prod.snd hdown
        rw [hout, Run.bind_of_ok hup, Run.bind_pure_eq, hdown]
        cases b with
        | error e => exact ⟨_, .failsBelow hplus.symm hminus.symm, hboth.symm⟩
        | ok minus => exact ⟨_, .delivers hplus.symm hminus.symm, hboth.symm⟩

/-- What is done for one parameter. -/
theorem quotientAt_part {s s' : Messages} (hs : s'.answers = s.answers) {w : Workspace R}
    (hw : w.outlet = .stream s') {x : R} {k : Nat} (hx : params[k]? = some x) :
    let value p := (m.response p ints mode s).outcome
    let out := m.quotientAt interrupt params ints mode epsilon x k w
    ∃ ps, Part value params epsilon k (interrupt w.polls) out.1 ps ∧
      out.2 = carryOut m interrupt ints mode ps w := by
  intro value out
  have hpoll : Run.poll interrupt w =
      (.ok (interrupt w.polls), perform m interrupt ints mode w .poll) := rfl
  have hout : out = _ := Run.bind_of_ok hpoll
  rw [hout]
  cases interrupt w.polls with
  | true => exact ⟨[.poll], .interrupted, rfl⟩
  | false =>
    have hasked : (perform m interrupt ints mode w .poll).outlet = .stream s' := hw
    obtain ⟨ps, hpart, hafter⟩ :=
      m.quotient_part interrupt params ints mode epsilon hs hasked hx
    exact ⟨.poll :: ps, hpart, hafter⟩

/-- What became of central differences that were begun in `start` is what they say it is, once the
quotients `qs` that are known already are put in front. -/
def Accounts (s : Messages) (start : Workspace R) (qs : List R)
    (out : Outcome (List R) × Workspace R) : Prop :=
  ∃ polls probes,
    Ending (fun p => (m.response p ints mode s).outcome) (fun k => interrupt (start.polls + k))
      params epsilon (min m.size params.length) (out.1.map (qs ++ ·)) polls probes ∧
    out.2 = carryOut m interrupt ints mode probes start

variable {m interrupt params ints mode epsilon}

/-- A further quotient may as well be counted among those that are known. -/
theorem Accounts.cons {s : Messages} {start : Workspace R} {qs : List R} {q : R}
    {out : Outcome (List R) × Workspace R}
    (h : m.Accounts interrupt params ints mode epsilon s start (qs ++ [q]) out) :
    m.Accounts interrupt params ints mode epsilon s start qs (out.1.map (q :: ·), out.2) := by
  obtain ⟨polls, probes, hending, hafter⟩ := h
  have hmap : (out.1.map (q :: ·)).map (qs ++ ·) = out.1.map ((qs ++ [q]) ++ ·) := by
    cases out.1 with
    | ok ys => exact congrArg Except.ok (List.append_cons qs q ys)
    | error e => rfl
  exact ⟨polls, probes, hmap ▸ hending, hafter⟩

variable (m interrupt params ints mode epsilon)

/-- Before a parameter the interrupt was asked once for each of those before it, and the stream
gives the same answers as at the start. -/
theorem carryOut_before {s : Messages} {start : Workspace R} (hstart : start.outlet = .stream s)
    (k : Nat) :
    let w := carryOut m interrupt ints mode (probesBefore params epsilon k) start
    w.polls = start.polls + k ∧ ∃ s', s'.answers = s.answers ∧ w.outlet = .stream s' := by
  refine ⟨?_, _, Messages.answers_writeAll .., outlet_carryOut m interrupt ints mode rfl _ hstart⟩
  rw [polls_carryOut, polls_probesBefore]

/-- **The loop from one parameter on**, once those before it are settled. -/
theorem accounts_of_settled {s : Messages} {start : Workspace R} (hstart : start.outlet = .stream s)
    {rest : List (R × Nat)} {k : Nat} (hrest : rest = (params.take m.size).zipIdx.drop k)
    (hk : k ≤ min m.size params.length) {qs : List R}
    (hqs : Settled (fun p => (m.response p ints mode s).outcome)
      (fun k => interrupt (start.polls + k)) params epsilon k qs) :
    let loop : Run R (List R) :=
      rest.mapM fun (x, k) => m.quotientAt interrupt params ints mode epsilon x k
    m.Accounts interrupt params ints mode epsilon s start qs
      (loop (carryOut m interrupt ints mode (probesBefore params epsilon k) start)) := by
  -- the parameters that are left become fewer, and those that are settled more
  induction rest generalizing k qs with
  | nil =>
    have hlength := congrArg List.length hrest
    simp only [List.length_nil, List.length_drop, List.length_zipIdx, List.length_take] at hlength
    obtain rfl : k = min m.size params.length := by omega
    have hout : Except.map (qs ++ ·) (.ok [] : Outcome (List R)) = .ok qs :=
      congrArg Except.ok (List.append_nil qs)
    exact ⟨min m.size params.length, probesBefore params epsilon _, hout ▸ .complete hqs, rfl⟩
  | cons p rest ih =>
    obtain ⟨x, i⟩ := p
    obtain ⟨rfl, hlt, hx, hrest⟩ := first_of_drop hrest
    intro loop
    let stops k := interrupt (start.polls + k)
    let before := probesBefore params epsilon i
    let w := carryOut m interrupt ints mode before start
    obtain ⟨hpolls, s', hs', hw⟩ :=
      m.carryOut_before interrupt params ints mode epsilon hstart i
    obtain ⟨ps, hpart, hafter⟩ := m.quotientAt_part interrupt params ints mode epsilon hs' hw hx
    rw [hpolls] at hpart
    rw [← carryOut_append] at hafter
    have hloop : loop = (m.quotientAt interrupt params ints mode epsilon x i >>= fun y =>
        (rest.mapM fun (x, k) => m.quotientAt interrupt params ints mode epsilon x k) >>=
          fun ys => pure (y :: ys)) := List.mapM_cons
    rw [hloop]
    cases hout : m.quotientAt interrupt params ints mode epsilon x i w with
    | mk a v =>
      rw [hout] at hpart hafter
      cases a with
      | error e =>
        rw [Run.bind_of_error hout]
        exact ⟨i + 1, before ++ ps, hpart.ending hlt hqs, hafter⟩
      | ok q =>
        have hquotient : IsQuotient _ stops params epsilon i q ∧ ps = probes params epsilon i :=
          hpart.isQuotient
        obtain ⟨hq, rfl⟩ := hquotient
        have hnext : v =
            carryOut m interrupt ints mode (probesBefore params epsilon (i + 1)) start := by
          rw [probesBefore_succ]
          exact hafter
        rw [Run.bind_of_ok hout, Run.bind_pure_eq, hnext]
        exact (ih hrest hlt (hqs.concat hq)).cons

/-- **Central differences coordinate by coordinate.** With `n` parameters to go through, they end in
one of four ways: with all `n` quotients; interrupted, at the first parameter for which the
interrupt asks to stop; or with the error of the density, at the first parameter for which it fails,
above or below. Nothing is done but asking the interrupt, once for each parameter that was begun,
and evaluating the density there. The text is what these evaluations write. -/
theorem finiteDifference_ending (s : Messages) (w : Workspace R) :
    let start : Workspace R := { w with outlet := .stream s }
    let n := min m.size params.length
    let value p := (m.response p ints mode s).outcome
    let stops k := interrupt (w.polls + k)
    let out := m.finiteDifference interrupt params ints mode epsilon start
    ∃ polls probes, Ending value stops params epsilon n out.1 polls probes ∧
      out.2 = carryOut m interrupt ints mode probes start ∧
      out.2.polls = w.polls + polls ∧
      out.2.outlet = .stream (s.writeAll (probes.flatMap (texts m ints mode s))).2 := by
  intro start n value stops out
  have hsettled : Settled value stops params epsilon 0 [] := ⟨rfl, fun j q h => by cases h⟩
  have haccounts : m.Accounts interrupt params ints mode epsilon s start [] out := by
    simp only [out, finiteDifference_eq]
    exact m.accounts_of_settled interrupt params ints mode epsilon rfl rfl (Nat.zero_le n) hsettled
  obtain ⟨polls, probes, hending, hafter⟩ := haccounts
  have hout : Except.map ([] ++ ·) out.1 = out.1 := by
    cases out.1 <;> rfl
  refine ⟨polls, probes, hout ▸ hending, hafter, ?_, ?_⟩
  · rw [hafter, polls_carryOut, hending.polls_eq]
  · rw [hafter]
    exact outlet_carryOut m interrupt ints mode rfl probes rfl

end Model

end LogDensity
