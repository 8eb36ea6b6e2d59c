import LogDensity.Proofs.Tape.Scopes

/-!
# Stale handles

Positions of a tape are used again after a release, any number of times. A handle is not misled by
this: `Tape.find? t h` is the node that the handle `h` was made for, as long as it is on the tape
`t`. There is one equation for each thing that can happen to the tape. Recording changes nothing
about a handle that was issued before (`find?_record`), because the new node has a serial number
that no such handle has, and so do all nodes that the position will ever hold again. A release takes
away exactly the handles at or behind its mark (`find?_release_eq_some`).

* `ScopedTape.find?_run_eq_some`: after a run a handle names the node that it named before, or none
  if the run cut the tape at or before the node.
* `ScopedTape.live_run_iff`: a handle is live exactly as long as no scope was closed with a mark at
  or before it, and a live handle names the node that it was made for.
-/

namespace LogDensity

variable {R : Type}

namespace Tape

/-- The node that a handle was made for, if it is still there. -/
def find? (t : Tape R) (h : Handle) : Option (Node R) :=
  (t.nodes[h.index]?).filter fun node => node.serial = h.serial

theorem find?_eq_some {t : Tape R} {h : Handle} {node : Node R} :
    t.find? h = some node ↔ t.nodes[h.index]? = some node ∧ node.serial = h.serial := by
  simp [find?, Option.filter_eq_some_iff]

theorem live_iff_find? {t : Tape R} {h : Handle} : t.Live h ↔ (t.find? h).isSome := by
  unfold Live find?
  cases t.nodes[h.index]? <;> simp

/-- The serial number of the handle was given out before. -/
def Issued (t : Tape R) (h : Handle) : Prop :=
  h.serial < t.nextSerial

theorem Issued.record {t : Tape R} {h : Handle} (hi : t.Issued h) (operands : List (Handle × R)) :
    (t.record operands).2.Issued h := by
  unfold Issued at hi ⊢
  rw [nextSerial_record]
  omega

theorem Issued.release {t : Tape R} {h : Handle} (hi : t.Issued h) (mark : Nat) :
    (t.release mark).Issued h :=
  hi

/-- The handle of a new node names it. -/
theorem find?_of_record {t : Tape R} {operands : List (Handle × R)} {h : Handle}
    (hrec : (t.record operands).1 = .ok h) :
    (t.record operands).2.Issued h ∧
      (t.record operands).2.find? h = some (nodeOf operands h.serial) := by
  obtain ⟨hl, rfl⟩ := record_eq_ok.1 hrec
  rw [record_of_live hl]
  exact ⟨Nat.lt_succ_self _, find?_eq_some.2 ⟨Array.getElem?_push_size, rfl⟩⟩

/-- No new node is mistaken for an old one, whatever position it gets. -/
theorem find?_record {t : Tape R} {h : Handle} (hi : t.Issued h)
    (operands : List (Handle × R)) : (t.record operands).2.find? h = t.find? h := by
  by_cases hl : ∀ o ∈ operands, t.Live o.1
  · rw [record_of_live hl]
    simp only [find?, Array.getElem?_push]
    split
    · next hend =>
      have hfresh : t.nextSerial ≠ h.serial := Nat.ne_of_gt hi
      simp [hend, nodeOf, hfresh]
    · rfl
  · rw [record_of_stale hl]
    rfl

theorem find?_release_eq_some {t : Tape R} {mark : Nat} {h : Handle} {node : Node R} :
    (t.release mark).find? h = some node ↔ t.find? h = some node ∧ h.index < mark := by
  simp only [find?_eq_some, getElem?_release_eq, Option.ite_none_right_eq_some]
  tauto

end Tape

namespace ScopedTape

/-- The mark that an event cuts the tape back to, if it closes a scope. -/
def cut (s : ScopedTape R) : Event R → List Nat
  | .closeScope k => (s.marks[k]?).toList
  | _ => []

/-- The marks that a run of events cuts the tape back to, in order. -/
def cuts (s : ScopedTape R) : List (Event R) → List Nat
  | [] => []
  | e :: events => s.cut e ++ (s.step e).cuts events

theorem run_append (s : ScopedTape R) (events later : List (Event R)) :
    s.run (events ++ later) = (s.run events).run later :=
  List.foldl_append

theorem cuts_append (s : ScopedTape R) (events later : List (Event R)) :
    s.cuts (events ++ later) = s.cuts events ++ (s.run events).cuts later := by
  induction events generalizing s with
  | nil => rfl
  | cons e events ih =>
    rw [List.cons_append, cuts, ih, cuts, List.append_assoc]
    rfl

theorem issued_step {s : ScopedTape R} {h : Handle} (hi : s.tape.Issued h) (e : Event R) :
    (s.step e).tape.Issued h :=
  step_induction (P := fun t => t.Issued h) (fun _ operands hi => hi.record operands)
    (fun _ mark hi => hi.release mark) hi e

/-- An event takes a handle away if it cuts the tape at or before it, and else changes nothing
about it. -/
theorem find?_step_eq_some {s : ScopedTape R} {h : Handle} (hi : s.tape.Issued h) (e : Event R)
    {node : Node R} :
    (s.step e).tape.find? h = some node ↔
      s.tape.find? h = some node ∧ ∀ mark ∈ s.cut e, h.index < mark := by
  cases e with
  | openScope => simp [step, cut]
  | record operands => simp [step, cut, Tape.find?_record hi]
  | closeScope k =>
    rcases hk : s.marks[k]? with _ | mark
    · simp [step, cut, hk]
    · simp [step, cut, hk, Tape.find?_release_eq_some]

/-- **A run takes a handle away if it cuts the tape at or before it, and else changes nothing about
it.** -/
theorem find?_run_eq_some {s : ScopedTape R} {h : Handle} (hi : s.tape.Issued h)
    (events : List (Event R)) {node : Node R} :
    (s.run events).tape.find? h = some node ↔
      s.tape.find? h = some node ∧ ∀ mark ∈ s.cuts events, h.index < mark := by
  induction events generalizing s with
  | nil => simp [run, cuts]
  | cons e events ih =>
    change ((s.step e).run events).tape.find? h = some node ↔ _
    rw [ih (issued_step hi e), find?_step_eq_some hi e, cuts, List.forall_mem_append, and_assoc]

/-- **Staleness is detected exactly.** Whatever state a handle is issued in, and whatever happens
from then on (scopes opened, closed in any order, recordings, rejected recordings): the handle is
live if and only if no scope was closed since then whose mark is at or before the position of the
handle, and if and only if its position holds the very node that it was issued for. -/
theorem live_run_iff {s : ScopedTape R} {operands : List (Handle × R)} {h : Handle}
    (hrec : (s.tape.record operands).1 = .ok h) (later : List (Event R)) :
    let s' := s.step (.record operands)
    let t := (s'.run later).tape
    (t.Live h ↔ ∀ mark ∈ s'.cuts later, h.index < mark) ∧
      (t.Live h ↔ t.nodes[h.index]? = some (Tape.nodeOf operands h.serial)) := by
  intro s' t
  obtain ⟨hissued, hfound⟩ := Tape.find?_of_record hrec
  have hrun (node : Node R) : t.find? h = some node ↔
      Tape.nodeOf operands h.serial = node ∧ ∀ mark ∈ s'.cuts later, h.index < mark := by
    rw [find?_run_eq_some hissued later]
    simp [s', step, hfound]
  have hlive : t.Live h ↔ ∀ mark ∈ s'.cuts later, h.index < mark := by
    simp [Tape.live_iff_find?, Option.isSome_iff_exists, hrun]
  refine ⟨hlive, hlive.trans ?_⟩
  have hnode := hrun (Tape.nodeOf operands h.serial)
  rw [Tape.find?_eq_some] at hnode
  simpa [Tape.nodeOf] using hnode.symm

/-- A variable, its square recorded while three scopes are open, and what happens then: the middle
scope is closed before the inner one, the position of the square is used again, and an operation on
the square is rejected. -/
theorem square_stale_outOfOrder :
    let x : Handle := ⟨0, 0⟩
    let square : Handle := ⟨1, 1⟩
    let s : ScopedTape Int := run {} [.openScope, .record [], .openScope, .openScope]
    let operands := [(x, 2), (x, 2)]
    let later : List (Event Int) := [.closeScope 1, .record [(x, 3)], .record [(square, 1)]]
    let s' := s.step (.record operands)
    let t := (s'.run later).tape
    (s.tape.record operands).1 = .ok square ∧ s'.tape.Live square ∧ s'.cuts later = [1] ∧
      (t.nodes[1]?).map Node.serial = some 2 ∧ ¬ t.Live square ∧ t.Live x ∧
      (t.Live square ↔ ∀ mark ∈ s'.cuts later, square.index < mark) ∧
      (t.Live square ↔
        t.nodes[square.index]? = some (Tape.nodeOf operands square.serial)) := by
  intro x square s operands later s' t
  have hrec : (s.tape.record operands).1 = .ok square := by decide
  exact ⟨hrec, by decide, by decide, by decide, by decide, by decide, live_run_iff hrec later⟩

end ScopedTape

end LogDensity
