import LogDensity.Proofs.Tape.Staleness
import LogDensity.Proofs.Tape.Sweeping

/-!
# Refused requests

Two things are asked of a tape: to record a node, and to sweep back from a result to a mark. Either
is refused if a handle that it names is stale, and for no other reason (`Tape.ask_eq_error_iff`).
The sweep reads and writes adjoints by position, but on a reachable tape operands come before their
node, so no mark leads out of range, not even one beyond the end of the tape, where the scopes that
were closed out of order have left it. A refusal uses up a serial number at most (`Tape.ask_error`).

* `ScopedTape.ask_run`: whatever happened to a tape before, a request is refused if and only if it
  names a stale handle; a refusal leaves the nodes, the count of releases and the state of every
  handle as they were, and the next node has a serial number above those of all earlier handles.
-/

namespace LogDensity

variable {R : Type}

/-! ## Requests -/

/-- What is asked of a tape. -/
inductive Request (R : Type)
  /-- To record an independent variable (no operands) or an operation. -/
  | record (operands : List (Handle × R))
  /-- To sweep back to a mark, wherever that lies. -/
  | gradient (mark : Nat) (out : Dual R) (wrt : List (Dual R))

/-- The handles that a request names. -/
def Request.handles : Request R → List Handle
  | record operands => operands.map Prod.fst
  | gradient _ out wrt => (out :: wrt).filterMap Dual.handle

/-- What a tape answers. -/
inductive Answer (R : Type)
  | node (h : Handle)
  | partials (xs : List R)

namespace Tape

theorem OrderedFrom.mono {t : Tape R} {m n : Nat} (h : t.OrderedFrom m) (hmn : m ≤ n) :
    t.OrderedFrom n :=
  fun i hi => h i (hmn.trans hi)

variable [Add R] [Mul R] [Zero R] [One R] [BEq R]

/-- The answer to a request, and the tape after it. -/
def ask (t : Tape R) : Request R → Except Breach (Answer R) × Tape R
  | .record operands =>
    let (h, t) := t.record operands
    (h.map .node, t)
  | .gradient mark out wrt => ((t.gradient mark out wrt).map .partials, t)

/-- Without stale handles there is an answer. -/
theorem exists_ask_eq_ok {t : Tape R} (ho : t.OrderedFrom 0) {r : Request R}
    (hr : ∀ h ∈ r.handles, t.Live h) : ∃ a, (t.ask r).1 = .ok a := by
  cases r with
  | record operands =>
    have hlive : ∀ o ∈ operands, t.Live o.1 := fun o ho' => hr o.1 (List.mem_map_of_mem ho')
    refine ⟨.node ⟨t.size, t.nextSerial⟩, ?_⟩
    simp only [ask, record_of_live hlive]
    rfl
  | gradient mark out wrt =>
    have hlive : ∀ x ∈ out :: wrt, x.Live t :=
      fun x hx h hh => hr h (List.mem_filterMap.2 ⟨x, hx, hh⟩)
    obtain ⟨hout, hwrt⟩ := List.forall_mem_cons.1 hlive
    obtain ⟨partials, hok, -⟩ := gradient_eq_ok (ho.mono (Nat.zero_le mark)) hout hwrt
    refine ⟨.partials partials, ?_⟩
    simp only [ask, hok]
    rfl

/-- With a stale handle there is none, and no sweep is begun. -/
theorem ask_of_stale {t : Tape R} {r : Request R} (hr : ¬ ∀ h ∈ r.handles, t.Live h) :
    (t.ask r).1 = .error .staleVariable := by
  cases r with
  | record operands =>
    have hstale : ¬ ∀ o ∈ operands, t.Live o.1 := by
      intro hlive
      apply hr
      intro h hh
      obtain ⟨o, ho, rfl⟩ := List.mem_map.1 hh
      exact hlive o ho
    simp only [ask, record_of_stale hstale]
    rfl
  | gradient mark out wrt =>
    have hstale : ¬ ∀ x ∈ out :: wrt, x.Live t := by
      intro hlive
      apply hr
      intro h hh
      obtain ⟨x, hx, hxh⟩ := List.mem_filterMap.1 hh
      exact hlive x hx h hxh
    simp only [ask, gradient, if_neg hstale]
    rfl

/-- **A request is refused if and only if it names a stale handle.** -/
theorem ask_eq_error_iff {t : Tape R} (ho : t.OrderedFrom 0) (r : Request R) (b : Breach) :
    (t.ask r).1 = .error b ↔ b = .staleVariable ∧ ∃ h ∈ r.handles, ¬ t.Live h := by
  by_cases hr : ∀ h ∈ r.handles, t.Live h
  · obtain ⟨a, ha⟩ := exists_ask_eq_ok ho hr
    simpa [ha] using fun _ => hr
  · rw [ask_of_stale hr, Except.error.injEq, eq_comm]
    simpa using fun _ => hr

/-- A refusal uses up a serial number at most. -/
theorem ask_error {t : Tape R} {r : Request R} {b : Breach} (h : (t.ask r).1 = .error b) :
    ∃ n, t.nextSerial ≤ n ∧ (t.ask r).2 = { t with nextSerial := n } := by
  cases r with
  | gradient mark out wrt => exact ⟨t.nextSerial, Nat.le_refl _, rfl⟩
  | record operands =>
    by_cases hlive : ∀ o ∈ operands, t.Live o.1
    · simp only [ask, record_of_live hlive] at h
      cases h
    · refine ⟨t.nextSerial + 1, Nat.le_succ _, ?_⟩
      simp only [ask, record_of_stale hlive]

end Tape

namespace ScopedTape

/-! ## Handles of a run -/

/-- The handle that an event issues. -/
def issue? (s : ScopedTape R) : Event R → Option Handle
  | .record operands => (s.tape.record operands).1.toOption
  | _ => none

/-- The handles that a run of events issues, in order. -/
def issued (s : ScopedTape R) : List (Event R) → List Handle
  | [] => []
  | e :: events => (s.issue? e).toList ++ (s.step e).issued events

theorem issued_of_issue? {s : ScopedTape R} {e : Event R} {h : Handle} (hi : s.issue? e = some h) :
    (s.step e).tape.Issued h := by
  cases e with
  | openScope => cases hi
  | closeScope k => cases hi
  | record operands =>
    have hrec : (s.tape.record operands).1 = .ok h := by
      unfold issue? at hi
      cases hrec : (s.tape.record operands).1 with
      | error b => simp [hrec, Except.toOption] at hi
      | ok h' => simpa [hrec, Except.toOption] using hi
    exact (Tape.find?_of_record hrec).1

/-- A handle that was issued once counts as issued ever after. -/
theorem issued_run {s : ScopedTape R} {h : Handle} (events : List (Event R))
    (hh : s.tape.Issued h ∨ h ∈ s.issued events) : (s.run events).tape.Issued h := by
  induction events generalizing s with
  | nil => simpa [issued, run] using hh
  | cons e events ih =>
    apply ih
    simp only [issued, List.mem_append, Option.mem_toList] at hh
    rcases hh with hold | hnow | hlater
    · exact .inl (issued_step hold e)
    · exact .inl (issued_of_issue? hnow)
    · exact .inr hlater

/-! ## Requests after a run -/

variable [Add R] [Mul R] [Zero R] [One R] [BEq R]

/-- **Requests fail on stale handles only, and fail cleanly.** Whatever happened to a tape (scopes
opened and closed in any order, recordings, rejected recordings), a request is refused if and only
if a handle that it names is stale. A refusal leaves the nodes and the count of releases as they
were, so that every handle is live afterwards just if it was before, and the next node has a serial
number above those of all handles issued before. -/
theorem ask_run (events : List (Event R)) (r : Request R) :
    let t := (run {} events).tape
    let t' := (t.ask r).2
    (∀ b, (t.ask r).1 = .error b ↔ b = .staleVariable ∧ ∃ h ∈ r.handles, ¬ t.Live h) ∧
      ∀ b, (t.ask r).1 = .error b →
        t'.nodes = t.nodes ∧ t'.recoveries = t.recoveries ∧ (∀ h, t'.Live h ↔ t.Live h) ∧
          ∀ operands h, (t'.record operands).1 = .ok h →
            ∀ earlier ∈ issued {} events, earlier.serial < h.serial := by
  intro t t'
  have hs : (run {} events : ScopedTape R).Reachable := ⟨events, rfl⟩
  refine ⟨Tape.ask_eq_error_iff hs.ordered r, fun b hb => ?_⟩
  obtain ⟨n, hn, ht'⟩ := Tape.ask_error hb
  have ht' : t' = { t with nextSerial := n } := ht'
  rw [ht']
  refine ⟨rfl, rfl, fun h => Iff.rfl, fun operands h hrec earlier hmem => ?_⟩
  have hissued : earlier.serial < t.nextSerial := issued_run events (.inr hmem)
  by_cases hlive : ∀ o ∈ operands, Tape.Live { t with nextSerial := n } o.1
  · rw [Tape.record_of_live hlive] at hrec
    obtain rfl := Except.ok.inj hrec
    exact Nat.lt_of_lt_of_le hissued hn
  · rw [Tape.record_of_stale hlive] at hrec
    cases hrec

/-- The outer of two scopes is closed, and one variable recorded: the mark of the inner scope lies
beyond the end of the tape. A sweep back to it succeeds for the new variable, and is refused for the
square of the old one. -/
theorem ask_run_beyondEnd :
    let x : Handle := ⟨0, 0⟩
    let square : Handle := ⟨1, 1⟩
    let y : Handle := ⟨0, 2⟩
    let events : List (Event Int) :=
      [.openScope, .record [], .record [(x, 3), (x, 3)], .openScope, .closeScope 1, .record []]
    let t := (run {} events).tape
    let sweep (h : Handle) : Request Int := .gradient 2 ⟨9, some h⟩ [⟨5, some y⟩]
    (run {} events).marks = [2] ∧ t.size = 1 ∧ issued {} events = [x, square, y] ∧
      (∀ b, (t.ask (sweep y)).1 ≠ .error b) ∧ (t.ask (sweep square)).1 = .error .staleVariable ∧
      ((t.ask (sweep square)).2.Live y ↔ t.Live y) := by
  intro x square y events t sweep
  obtain ⟨hanswered, -⟩ := ask_run events (sweep y)
  obtain ⟨hrefused, hafter⟩ := ask_run events (sweep square)
  have hsquare : (t.ask (sweep square)).1 = .error .staleVariable :=
    (hrefused _).2 ⟨rfl, square, by decide, by decide⟩
  refine ⟨by decide, by decide, by decide, fun b hb => ?_, hsquare, (hafter _ hsquare).2.2.1 y⟩
  obtain ⟨-, h, hh, hstale⟩ := (hanswered b).1 hb
  have hlive : ∀ h ∈ (sweep y).handles, t.Live h := by decide
  exact hstale (hlive h hh)

end ScopedTape

end LogDensity
