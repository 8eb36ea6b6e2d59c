import LogDensity.Proofs.Tape.Recording

/-!
# Tapes with scopes

A scope of a tape remembers the length that the tape had when the scope was opened, and cuts the
tape back to it when it is closed. `ScopedTape` is a tape with the marks of its open scopes, and
`Event` is all that can happen to it. Scopes close in any order: a mark may lie beyond the end of
the tape, and a scope may cut off what was recorded through another.

* `Tape.OrderedFrom t m`: from the position `m` on, operands come before their node.
* `Tape.Numbered t`: serial numbers grow along the tape and are below the next one.
* `ScopedTape.Reachable`: some sequence of events leads to a state from the empty tape.
* `ScopedTape.Reachable.ordered`: on a reachable tape all operands come before their node, because
  a node is recorded only while its operands are live.
* `ScopedTape.Reachable.numbered`: a reachable tape is numbered, as a release takes nodes from the
  end and gives no serial number back.
-/

namespace LogDensity

variable {R : Type}

namespace Tape

/-! ## Operands before nodes -/

/-- From the position `m` on, operands come before their node. -/
def OrderedFrom (t : Tape R) (m : Nat) : Prop :=
  ∀ i, m ≤ i → ∀ node, t.nodes[i]? = some node → ∀ o ∈ node.operands, o.1 < i

theorem OrderedFrom.record {t : Tape R} {m : Nat} (ho : t.OrderedFrom m)
    (operands : List (Handle × R)) : (t.record operands).2.OrderedFrom m := by
  by_cases hl : ∀ o ∈ operands, t.Live o.1
  · rw [record_of_live hl]
    intro i hi node hnode o ho'
    rw [Array.getElem?_push] at hnode
    split at hnode
    · next hend =>
      obtain rfl := Option.some.inj hnode
      obtain ⟨o, hmem, rfl⟩ := List.mem_map.1 ho'
      exact hend ▸ (hl o hmem).index_lt
    · exact ho i hi node hnode o ho'
  · rw [record_of_stale hl]
    exact ho

theorem OrderedFrom.release {t : Tape R} {m : Nat} (ho : t.OrderedFrom m) (mark : Nat) :
    (t.release mark).OrderedFrom m :=
  fun i hi node hnode => ho i hi node (getElem?_release hnode).2

/-! ## Serial numbers -/

/-- Serial numbers grow along the tape and are below the next one. -/
structure Numbered (t : Tape R) : Prop where
  increasing : t.nodes.toList.Pairwise fun a b => a.serial < b.serial
  lt_next : ∀ node ∈ t.nodes.toList, node.serial < t.nextSerial

theorem numbered_empty : ({} : Tape R).Numbered :=
  ⟨.nil, fun _ h => nomatch h⟩

theorem Numbered.record {t : Tape R} (hn : t.Numbered) (operands : List (Handle × R)) :
    (t.record operands).2.Numbered := by
  by_cases hl : ∀ o ∈ operands, t.Live o.1
  · rw [record_of_live hl]
    refine ⟨?_, fun node hnode => ?_⟩
    · rw [Array.toList_push]
      refine List.pairwise_append.2 ⟨hn.increasing, List.pairwise_singleton _ _, ?_⟩
      intro a ha b hb
      obtain rfl := List.mem_singleton.1 hb
      exact hn.lt_next a ha
    · rw [Array.toList_push] at hnode
      rcases List.mem_append.1 hnode with hold | hnew
      · exact Nat.lt_succ_of_lt (hn.lt_next node hold)
      · obtain rfl := List.mem_singleton.1 hnew
        exact Nat.lt_succ_self _
  · rw [record_of_stale hl]
    exact ⟨hn.increasing, fun node hnode => Nat.lt_succ_of_lt (hn.lt_next node hnode)⟩

theorem Numbered.release {t : Tape R} (hn : t.Numbered) (mark : Nat) :
    (t.release mark).Numbered := by
  have hsub : (t.release mark).nodes.toList.Sublist t.nodes.toList := by
    rw [Tape.release, Array.take_eq_extract, Array.toList_extract, List.extract_eq_take_drop]
    exact (List.take_sublist _ _).trans (List.drop_sublist _ _)
  exact ⟨hn.increasing.sublist hsub, fun node hnode => hn.lt_next node (hsub.subset hnode)⟩

end Tape

/-! ## Runs -/

/-- A tape with the marks of the scopes that are open on it, the last opened first. -/
structure ScopedTape (R : Type) where
  tape : Tape R := {}
  marks : List Nat := []

namespace ScopedTape

/-- What can happen to a tape with scopes. -/
inductive Event (R : Type)
  | openScope
  /-- Closes the scope at a place in the list of marks. -/
  | closeScope (k : Nat)
  /-- Records an independent variable (no operands) or an operation. -/
  | record (operands : List (Handle × R))

/-- The state after an event. -/
def step (s : ScopedTape R) : Event R → ScopedTape R
  | .openScope => { s with marks := s.tape.size :: s.marks }
  | .closeScope k =>
    match s.marks[k]? with
    | some mark => { tape := s.tape.release mark, marks := s.marks.eraseIdx k }
    | none => s
  | .record operands => { s with tape := (s.tape.record operands).2 }

/-- The state after events, from left to right. -/
def run (s : ScopedTape R) (events : List (Event R)) : ScopedTape R :=
  events.foldl step s

/-- Some sequence of events leads to the state from the empty tape. -/
def Reachable (s : ScopedTape R) : Prop :=
  ∃ events, run {} events = s

/-- A property of tapes that recording and releasing keep is kept by every event. -/
theorem step_induction {P : Tape R → Prop} (hrecord : ∀ t operands, P t → P (t.record operands).2)
    (hrelease : ∀ t mark, P t → P (t.release mark)) {s : ScopedTape R} (h : P s.tape)
    (e : Event R) : P (s.step e).tape := by
  cases e with
  | openScope => exact h
  | closeScope k =>
    simp only [step]
    split
    · exact hrelease _ _ h
    · exact h
  | record operands => exact hrecord _ _ h

/-- A property of tapes that recording and releasing keep holds on every reachable tape, if it
holds on the empty one. -/
theorem Reachable.induction {P : Tape R → Prop} (hempty : P {})
    (hrecord : ∀ t operands, P t → P (t.record operands).2)
    (hrelease : ∀ t mark, P t → P (t.release mark)) {s : ScopedTape R} (hs : s.Reachable) :
    P s.tape := by
  obtain ⟨events, rfl⟩ := hs
  suffices h : ∀ s : ScopedTape R, P s.tape → P (run s events).tape from h {} hempty
  induction events with
  | nil => exact fun _ h => h
  | cons e events ih => exact fun s h => ih _ (step_induction hrecord hrelease h e)

/-- **On a reachable tape all operands come before their node.** -/
theorem Reachable.ordered {s : ScopedTape R} (hs : s.Reachable) : s.tape.OrderedFrom 0 :=
  hs.induction (P := fun t => t.OrderedFrom 0) (fun i _ node hnode => by simp at hnode)
    (fun _ operands h => h.record operands) fun _ mark h => h.release mark

/-- **On a reachable tape serial numbers grow and are below the next one.** -/
theorem Reachable.numbered {s : ScopedTape R} (hs : s.Reachable) : s.tape.Numbered :=
  hs.induction (P := Tape.Numbered) Tape.numbered_empty (fun _ operands h => h.record operands)
    fun _ mark h => h.release mark

end ScopedTape

end LogDensity
