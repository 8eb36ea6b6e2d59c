import LogDensity.Proofs.Tape.Ancestry

/-!
# Where a node comes from

A node knows its operands by position only, and positions are used again. It is right all the same
to look for the operands there: as long as a node is on the tape, each of its operand positions
holds the very node that it held when the node was recorded. For operands are live when a node is
recorded, so that their positions are before its own, and a release that takes one of them away
takes the node away too.

A node on the tape of a run was recorded at some moment of the run (`Origin`). From then on the tape
up to the node did not change (`Origin.getElem?_stateAfter`).

* `ScopedTape.exists_origin`: every node on the tape has an origin.
* `ScopedTape.changes_step`: a recording appends a node at most, and closing a scope takes away
  nodes from the end.
* `ScopedTape.run_representation`: what a tape looks like after any run.
-/

namespace LogDensity

variable {R : Type}

namespace ScopedTape

/-! ## Single events -/

/-- What an event may do to the nodes. -/
def Event.Changes (nodes nodes' : Array (Node R)) : Event R → Prop
  | openScope => nodes' = nodes
  | closeScope _ => ∃ n, nodes' = nodes.take n
  | record operands =>
    nodes' = nodes ∨ ∃ serial, nodes' = nodes.push (Tape.nodeOf operands serial)

/-- A node stays as it is until it is taken away: recording adds at the end, closing a scope takes
from the end. -/
theorem changes_step (s : ScopedTape R) (e : Event R) :
    e.Changes s.tape.nodes (s.step e).tape.nodes := by
  cases e with
  | openScope => exact rfl
  | closeScope k =>
    rcases hk : s.marks[k]? with _ | mark
    · refine ⟨s.tape.nodes.size, ?_⟩
      simp [step, hk]
    · refine ⟨mark, ?_⟩
      simp only [step, hk]
      rfl
  | record operands =>
    by_cases hl : ∀ o ∈ operands, s.tape.Live o.1
    · refine .inr ⟨s.tape.nextSerial, ?_⟩
      simp only [step, Tape.record_of_live hl]
    · refine .inl ?_
      simp only [step, Tape.record_of_stale hl]

/-! ## Origins -/

/-- A moment of a run at which a node was recorded and got the handle `h`. -/
structure Origin (events : List (Event R)) (h : Handle) where
  before : List (Event R)
  operands : List (Handle × R)
  after : List (Event R)
  events_eq : events = before ++ .record operands :: after
  issued : ((run {} before).tape.record operands).1 = .ok h

namespace Origin

variable {events : List (Event R)} {h : Handle}

/-- The tape that the node was recorded on. -/
def tape (o : Origin events h) : Tape R :=
  (run {} o.before).tape

/-- The state some time later. -/
def stateAfter (o : Origin events h) (later : List (Event R)) : ScopedTape R :=
  (run {} o.before).step (.record o.operands) |>.run later

theorem stateAfter_after (o : Origin events h) : o.stateAfter o.after = run {} events :=
  calc
    o.stateAfter o.after = run {} (o.before ++ .record o.operands :: o.after) :=
      (run_append {} o.before (.record o.operands :: o.after)).symm
    _ = run {} events := congrArg (run {}) o.events_eq.symm

/-- An origin in a run is one in every longer run. -/
def concat (o : Origin events h) (e : Event R) : Origin (events ++ [e]) h where
  before := o.before
  operands := o.operands
  after := o.after ++ [e]
  events_eq := by simp only [← List.cons_append, ← List.append_assoc, ← o.events_eq]
  issued := o.issued

/-- The tape up to the node is at any later time what it was when the node was recorded, if the node
is there in the end. -/
theorem getElem?_stateAfter (o : Origin events h) (hlive : (run {} events).tape.Live h)
    {later : List (Event R)} (hlater : later <+: o.after) :
    (o.stateAfter later).tape.nodes[h.index]? = some (Tape.nodeOf o.operands h.serial) ∧
      ∀ i < h.index, (o.stateAfter later).tape.nodes[i]? = o.tape.nodes[i]? := by
  let s := run {} o.before
  let s' := s.step (.record o.operands)
  obtain ⟨hissued, hfound⟩ := Tape.find?_of_record o.issued
  -- no release up to the end reaches the node, and so none does earlier
  have hcuts : ∀ mark ∈ s'.cuts later, h.index < mark := by
    obtain ⟨node, hnode⟩ := Option.isSome_iff_exists.1 (Tape.live_iff_find?.1 hlive)
    rw [← o.stateAfter_after] at hnode
    have hall := ((find?_run_eq_some (s := s') hissued o.after).1 hnode).2
    obtain ⟨rest, hrest⟩ := hlater
    rw [← hrest, cuts_append] at hall
    exact (List.forall_mem_append.1 hall).1
  have hthere : (s'.run later).tape.find? h = some (Tape.nodeOf o.operands h.serial) :=
    (find?_run_eq_some (s := s') hissued later).2 ⟨hfound, hcuts⟩
  refine ⟨(Tape.find?_eq_some.1 hthere).1, fun i hi => ?_⟩
  have hs' : s'.Reachable := ⟨o.before ++ [.record o.operands], run_append ..⟩
  have hstart : s'.tape.Live h :=
    Tape.live_iff_find?.2 (Option.isSome_iff_exists.2 ⟨_, hfound⟩)
  have hend : (s'.run later).tape.Live h :=
    Tape.live_iff_find?.2 (Option.isSome_iff_exists.2 ⟨_, hthere⟩)
  have hindex : h.index = s.tape.size := by rw [(Tape.record_eq_ok.1 o.issued).2]
  calc
    (s'.run later).tape.nodes[i]? = s'.tape.nodes[i]? := hs'.getElem?_run hstart hend hi.le
    _ = s.tape.nodes[i]? := Tape.getElem?_record (hindex ▸ hi) o.operands

end Origin

/-- Every node on the tape was recorded at some moment of the run. -/
theorem exists_origin {events : List (Event R)} {i : Nat} {node : Node R}
    (hnode : (run {} events).tape.nodes[i]? = some node) :
    Nonempty (Origin events ⟨i, node.serial⟩) := by
  induction events using List.reverseRecOn with
  | nil => simp [run] at hnode
  | append_singleton events e ih =>
    -- a node that was there before the last event has an origin already
    have hold (h : (run {} events).tape.nodes[i]? = some node) :
        Nonempty (Origin (events ++ [e]) ⟨i, node.serial⟩) :=
      (ih h).map fun o => o.concat e
    rw [run_append] at hnode
    change ((run {} events).step e).tape.nodes[i]? = some node at hnode
    cases e with
    | openScope => exact hold hnode
    | closeScope k =>
      rcases hk : (run {} events).marks[k]? with _ | mark
      · simp only [step, hk] at hnode
        exact hold hnode
      · simp only [step, hk] at hnode
        exact hold (Tape.getElem?_release hnode).2
    | record operands =>
      by_cases hl : ∀ o ∈ operands, (run {} events).tape.Live o.1
      · simp only [step, Tape.record_of_live hl, Array.getElem?_push] at hnode
        split at hnode
        · next hend =>
          obtain rfl := Option.some.inj hnode
          exact ⟨events, operands, [], rfl, Tape.record_eq_ok.2 ⟨hl, by rw [hend]; rfl⟩⟩
        · exact hold hnode
      · simp only [step, Tape.record_of_stale hl] at hnode
        exact hold hnode

/-! ## The tape after a run -/

/-- **How a tape represents what was recorded.** After any sequence of events (recordings, rejected
ones too, and scopes opened and closed in any order):

* the operands of a node come before it, and serial numbers grow along the tape, below the next one;
* every node on the tape has an origin in the run, it is the node of the operands that it was
  recorded with, and at any time since then up to now each of its operand positions holds the very
  node that it held then, which is the one that the handle of the operand names;
* a further event appends one node at most if it is a recording, takes nodes from the end if it
  closes a scope, and does not touch the others. -/
theorem run_representation (events : List (Event R)) :
    let t := (run {} events).tape
    t.OrderedFrom 0 ∧ t.Numbered ∧
      (∀ (i : Nat) node, t.nodes[i]? = some node →
        Nonempty (Origin events ⟨i, node.serial⟩) ∧
          ∀ origin : Origin events ⟨i, node.serial⟩,
            node = Tape.nodeOf origin.operands node.serial ∧
              ∀ later, later <+: origin.after →
                let t' := (origin.stateAfter later).tape
                t'.nodes[i]? = some node ∧
                  ∀ o ∈ origin.operands, ∃ operand, operand.serial = o.1.serial ∧
                    origin.tape.nodes[o.1.index]? = some operand ∧
                      t'.nodes[o.1.index]? = some operand) ∧
      ∀ e, Event.Changes t.nodes ((run {} events).step e).tape.nodes e := by
  intro t
  have hs : (run {} events : ScopedTape R).Reachable := ⟨events, rfl⟩
  refine ⟨hs.ordered, hs.numbered, fun i node hnode => ⟨exists_origin hnode, fun origin => ?_⟩,
    changes_step _⟩
  have hlive : t.Live ⟨i, node.serial⟩ := Option.map_eq_some_iff.2 ⟨node, hnode, rfl⟩
  have heq : node = Tape.nodeOf origin.operands node.serial := by
    have hend := (origin.getElem?_stateAfter hlive List.prefix_rfl).1
    rw [origin.stateAfter_after] at hend
    exact Option.some.inj (hnode.symm.trans hend)
  refine ⟨heq, fun later hlater => ?_⟩
  obtain ⟨hsame, hbefore⟩ := origin.getElem?_stateAfter hlive hlater
  refine ⟨hsame.trans (congrArg some heq.symm), fun o ho => ?_⟩
  obtain ⟨hoperands, hh⟩ := Tape.record_eq_ok.1 origin.issued
  obtain ⟨operand, hoperand, hserial⟩ := Option.map_eq_some_iff.1 (hoperands o ho)
  have hi : i = origin.tape.size := congrArg Handle.index hh
  have hlt : o.1.index < i := hi ▸ (hoperands o ho).index_lt
  exact ⟨operand, hserial, hoperand, (hbefore o.1.index hlt).trans hoperand⟩

end ScopedTape

end LogDensity
