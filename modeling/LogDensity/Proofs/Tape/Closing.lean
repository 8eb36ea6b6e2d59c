import LogDensity.Proofs.Tape.Scopes
import Mathlib.Data.Nat.Basic

/-!
# Closing every scope

A scope remembers a length, not its nodes. If scopes are closed in the reverse order of opening, the
length is enough; in any other order the mark of a scope may come to lie beyond the end of the tape,
and what is recorded then lies before the mark and is not released with the scope.

A run is considered from a tape on which none of its scopes is open, up to a moment when none is
open any more. Every node on the way either lies at or behind the mark of an open scope, which will
release it (`Guarded`), or lies before the marks of all of them, and then none ever will
(`Stranded`). Each event keeps either property.

* `ScopedTape.nodes_run_eq_iff`: when all scopes are closed the tape holds what it held before they
  were opened, if and only if every node was recorded at or behind the mark of an open scope; and
  it was released once for every scope in any case.
* `ScopedTape.not_nodes_run_eq`: it is not enough to record while a scope is open.
-/

namespace LogDensity

variable {R : Type}

namespace ScopedTape

/-! ## Runs -/

/-- A property of every event of a run and the state in which it happens. -/
def Throughout (P : ScopedTape R → Event R → Prop) (s : ScopedTape R) : List (Event R) → Prop
  | [] => True
  | e :: events => P s e ∧ Throughout P (s.step e) events

/-- What is recorded is recorded while a scope is open. -/
def InScope (s : ScopedTape R) : Event R → Prop
  | .record _ => s.marks ≠ []
  | _ => True

/-- What is recorded gets a position at or behind the mark of an open scope. -/
def BehindMark (s : ScopedTape R) : Event R → Prop
  | .record operands =>
    (∀ o ∈ operands, s.tape.Live o.1) → ∃ mark ∈ s.marks, mark ≤ s.tape.size
  | _ => True

/-- Whether an event opens a scope. -/
def Event.opens : Event R → Bool
  | .openScope => true
  | _ => false

/-- A property of states that every event keeps holds after a run. -/
theorem run_induction {P : ScopedTape R → Prop} (hstep : ∀ s e, P s → P (s.step e))
    {s : ScopedTape R} (h : P s) (events : List (Event R)) : P (s.run events) := by
  induction events generalizing s with
  | nil => exact h
  | cons e events ih => exact ih (hstep s e h)

/-- Every scope that is opened stays open or is closed by one release. -/
theorem recoveries_run (s : ScopedTape R) (events : List (Event R)) :
    (s.run events).tape.recoveries + (s.run events).marks.length =
      s.tape.recoveries + s.marks.length + events.countP Event.opens := by
  induction events generalizing s with
  | nil => rfl
  | cons e events ih =>
    change ((s.step e).run events).tape.recoveries + ((s.step e).run events).marks.length = _
    rw [ih, List.countP_cons]
    cases e with
    | openScope => simp [step, Event.opens]; omega
    | record operands => simp [step, Event.opens, Tape.recoveries_record]
    | closeScope k =>
      rcases hk : s.marks[k]? with _ | mark
      · simp [step, hk, Event.opens]
      · have hlt : k < s.marks.length := (List.getElem?_eq_some_iff.1 hk).1
        simp [step, hk, Event.opens, Tape.release, List.length_eraseIdx_of_lt hlt]
        omega

/-! ## What was there before -/

/-- The first nodes are those of the tape `t`, and no open scope would release any of them. -/
structure StandsOn (t : Tape R) (s : ScopedTape R) : Prop where
  size : t.size ≤ s.tape.size
  nodes : ∀ i < t.size, s.tape.nodes[i]? = t.nodes[i]?
  marks : ∀ mark ∈ s.marks, t.size ≤ mark

theorem StandsOn.step {t : Tape R} {s : ScopedTape R} (h : StandsOn t s) (e : Event R) :
    StandsOn t (s.step e) := by
  have hsize := h.size
  cases e with
  | openScope =>
    refine ⟨h.size, h.nodes, fun mark hm => ?_⟩
    rcases List.mem_cons.1 hm with rfl | hm
    · exact h.size
    · exact h.marks mark hm
  | record operands =>
    refine ⟨Nat.le_trans h.size (Tape.size_le_record ..), fun i hi => ?_, h.marks⟩
    rw [← h.nodes i hi]
    exact Tape.getElem?_record (by omega) operands
  | closeScope k =>
    rcases hk : s.marks[k]? with _ | mark
    · simpa [ScopedTape.step, hk] using h
    · have hmark : t.size ≤ mark := h.marks mark (List.mem_of_getElem? hk)
      simp only [ScopedTape.step, hk]
      refine ⟨?_, fun i hi => ?_, fun m hm => h.marks m (List.mem_of_mem_eraseIdx hm)⟩
      · rw [Tape.size_release]
        omega
      · rw [Tape.getElem?_release_eq, if_pos (by omega), h.nodes i hi]

/-- A tape that stands on another one and is no longer has the same nodes. -/
theorem StandsOn.nodes_eq_iff {t : Tape R} {s : ScopedTape R} (h : StandsOn t s) :
    s.tape.nodes = t.nodes ↔ s.tape.size ≤ t.size := by
  constructor
  · intro heq
    rw [Tape.size, heq]
    exact Nat.le_refl _
  · intro hle
    refine Array.ext_getElem? fun i => ?_
    by_cases hi : i < t.size
    · exact h.nodes i hi
    · have hsize := h.size
      rw [Array.getElem?_eq_none (by unfold Tape.size at *; omega),
        Array.getElem?_eq_none (by unfold Tape.size at *; omega)]

/-! ## What is added -/

/-- From the position `n` on, every node lies at or behind the mark of an open scope. -/
def Guarded (n : Nat) (s : ScopedTape R) : Prop :=
  ∀ i, n ≤ i → i < s.tape.size → ∃ mark ∈ s.marks, mark ≤ i

theorem Guarded.step {n : Nat} {s : ScopedTape R} (h : Guarded n s) {e : Event R}
    (he : s.BehindMark e) : Guarded n (s.step e) := by
  intro i hn hi
  cases e with
  | openScope =>
    obtain ⟨mark, hm, hle⟩ := h i hn hi
    exact ⟨mark, List.mem_cons_of_mem _ hm, hle⟩
  | record operands =>
    by_cases hl : ∀ o ∈ operands, s.tape.Live o.1
    · rcases Nat.lt_or_ge i s.tape.size with hold | hnew
      · exact h i hn hold
      · obtain ⟨mark, hm, hle⟩ := he hl
        exact ⟨mark, hm, Nat.le_trans hle hnew⟩
    · simp only [ScopedTape.step, Tape.record_of_stale hl] at hi
      exact h i hn hi
  | closeScope k =>
    rcases hk : s.marks[k]? with _ | mark
    · simp only [ScopedTape.step, hk] at hi ⊢
      exact h i hn hi
    · simp only [ScopedTape.step, hk, Tape.size_release] at hi ⊢
      obtain ⟨m, hm, hle⟩ := h i hn (by omega)
      -- the scope that guards a node which stays is not the one that is closed
      obtain ⟨j, hj⟩ := List.mem_iff_getElem?.1 hm
      have hjk : j ≠ k := by
        rintro rfl
        rw [hk] at hj
        obtain rfl := Option.some.inj hj
        omega
      exact ⟨m, List.mem_eraseIdx_iff_getElem?.2 ⟨j, hjk, hj⟩, hle⟩

theorem Guarded.run {n : Nat} {s : ScopedTape R} (h : Guarded n s) {events : List (Event R)}
    (hb : s.Throughout BehindMark events) : Guarded n (s.run events) := by
  induction events generalizing s with
  | nil => exact h
  | cons e events ih => exact ih (h.step hb.1) hb.2

/-- There is a node at `i`, before the marks of all open scopes. -/
def Stranded (i : Nat) (s : ScopedTape R) : Prop :=
  i < s.tape.size ∧ ∀ mark ∈ s.marks, i < mark

theorem Stranded.step {i : Nat} {s : ScopedTape R} (h : Stranded i s) (e : Event R) :
    Stranded i (s.step e) := by
  obtain ⟨hi, hmarks⟩ := h
  cases e with
  | openScope => exact ⟨hi, List.forall_mem_cons.2 ⟨hi, hmarks⟩⟩
  | record operands => exact ⟨Nat.lt_of_lt_of_le hi (Tape.size_le_record ..), hmarks⟩
  | closeScope k =>
    rcases hk : s.marks[k]? with _ | mark
    · simpa [ScopedTape.step, hk, Stranded] using And.intro hi hmarks
    · have hmark : i < mark := hmarks mark (List.mem_of_getElem? hk)
      simp only [ScopedTape.step, hk, Stranded, Tape.size_release]
      exact ⟨by omega, fun m hm => hmarks m (List.mem_of_mem_eraseIdx hm)⟩

/-- A node that is recorded before the marks of all open scopes is stranded. -/
theorem stranded_of_not_behindMark {s : ScopedTape R} {e : Event R} (he : ¬ s.BehindMark e) :
    Stranded s.tape.size (s.step e) := by
  cases e with
  | openScope => exact absurd trivial he
  | closeScope k => exact absurd trivial he
  | record operands =>
    simp only [BehindMark, Classical.not_imp, not_exists, not_and, not_le] at he
    obtain ⟨hl, hmarks⟩ := he
    refine ⟨?_, hmarks⟩
    simp [ScopedTape.step, Tape.record_of_live hl, Tape.size]

/-- If a run records a node before the marks of all open scopes, some node is stranded. -/
theorem exists_stranded {t : Tape R} {s : ScopedTape R} (ht : StandsOn t s)
    {events : List (Event R)} (hb : ¬ s.Throughout BehindMark events) :
    ∃ i, t.size ≤ i ∧ Stranded i (s.run events) := by
  induction events generalizing s with
  | nil => exact absurd trivial hb
  | cons e events ih =>
    by_cases he : s.BehindMark e
    · exact ih (ht.step e) fun hrest => hb ⟨he, hrest⟩
    · exact ⟨s.tape.size, ht.size, run_induction (P := Stranded s.tape.size)
        (fun _ e h => h.step e) (stranded_of_not_behindMark he) events⟩

/-! ## All scopes closed -/

/-- **What scopes leave behind.** Scopes are opened on a tape and closed in any order, with
recordings in between. Once none of them is open, the tape was released once for each of them. It
has exactly the nodes that it had before the first was opened, if and only if every node was
recorded at or behind the mark of a scope that was open then. -/
theorem nodes_run_eq_iff (t : Tape R) {events : List (Event R)}
    (hclosed : (run ⟨t, []⟩ events).marks = []) :
    let t' := (run ⟨t, []⟩ events).tape
    t'.recoveries = t.recoveries + events.countP Event.opens ∧
      (t'.nodes = t.nodes ↔ Throughout BehindMark ⟨t, []⟩ events) := by
  intro t'
  have hstart : StandsOn t ⟨t, []⟩ := ⟨Nat.le_refl _, fun _ _ => rfl, fun _ h => nomatch h⟩
  have hstand : StandsOn t (run ⟨t, []⟩ events) :=
    run_induction (fun _ e h => h.step e) hstart events
  refine ⟨?_, hstand.nodes_eq_iff.trans ⟨fun hle => ?_, fun hb => ?_⟩⟩
  · have hcount := recoveries_run ⟨t, []⟩ events
    rw [hclosed] at hcount
    simpa using hcount
  · by_contra hb
    obtain ⟨i, hi, hlt, -⟩ := exists_stranded hstart hb
    omega
  · have hguard : Guarded t.size (run ⟨t, []⟩ events) :=
      Guarded.run (fun i hn hi => absurd hi (Nat.not_lt.2 hn)) hb
    by_contra hlt
    obtain ⟨mark, hm, -⟩ := hguard t.size (Nat.le_refl _) (Nat.lt_of_not_le hlt)
    rw [hclosed] at hm
    cases hm

/-- A tape with one node, on which two scopes are opened, and closed in the order of opening;
between these another scope guards what is recorded. -/
theorem nodes_run_eq_outOfOrder :
    let t : Tape Int := (run {} [.openScope, .record []]).tape
    let events : List (Event Int) :=
      [.openScope, .record [], .openScope, .record [(⟨0, 0⟩, 2)], .closeScope 1, .openScope,
        .record [(⟨0, 0⟩, 3)], .closeScope 0, .closeScope 0]
    let t' := (run ⟨t, []⟩ events).tape
    (run ⟨t, []⟩ events).marks = [] ∧ Throughout BehindMark ⟨t, []⟩ events ∧
      t'.recoveries = t.recoveries + events.countP Event.opens ∧
      (t'.nodes = t.nodes ↔ Throughout BehindMark ⟨t, []⟩ events) := by
  intro t events t'
  have hclosed : (run ⟨t, []⟩ events).marks = [] := by decide
  have hbehind : Throughout BehindMark ⟨t, []⟩ events := by
    simp [events, t, Throughout, BehindMark, run, step]
  exact ⟨hclosed, hbehind, nodes_run_eq_iff t hclosed⟩

/-- **Recording while a scope is open is not enough.** The second of two scopes remembers the length
one; when the first is closed the tape is empty, so a node recorded then lies before the mark of
the second scope, and stays when that is closed too. -/
theorem not_nodes_run_eq :
    ¬ ∀ events : List (Event Int), Throughout InScope {} events → (run {} events).marks = [] →
      (run {} events).tape.nodes = #[] ∧
        (run {} events).tape.recoveries = events.countP Event.opens := by
  intro h
  let events : List (Event Int) :=
    [.openScope, .record [], .openScope, .closeScope 1, .record [], .closeScope 0]
  have hscope : Throughout InScope {} events := by simp [events, Throughout, InScope, step]
  obtain ⟨hnodes, -⟩ := h events hscope (by decide)
  have hsize : (run {} events).tape.nodes.size = 1 := by decide
  rw [hnodes] at hsize
  cases hsize

end ScopedTape

end LogDensity
