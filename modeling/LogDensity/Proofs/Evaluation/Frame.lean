import LogDensity.Proofs.Evaluation.Gradient
import LogDensity.Proofs.Evaluation.Workspace
import LogDensity.Proofs.Program.Simulation
import Mathlib.Algebra.Group.Pi.Lemmas

/-!
# What evaluations do to the tapes

Outside its scopes an action can only add nodes to one tape (`Run.Records`). A scope around it
takes these away again, so that afterwards the tapes hold the nodes that they held before
(`Workspace.Restored`), and the tape of the scope counts one more recovery.

* `records_runDensity`: a density that opens no scope adds nodes to the tape that it is recorded on.
* `Run.Records.withScope`: a scope around an action that adds nodes restores the tapes.
-/

namespace LogDensity

variable {R : Type}

/-! ## Growing tapes -/

/-- Nodes were added, and none released. -/
structure Tape.Grows (t t' : Tape R) : Prop where
  nodes : ∃ added, t'.nodes = t.nodes ++ added
  recoveries : t'.recoveries = t.recoveries

namespace Tape.Grows

theorem refl (t : Tape R) : t.Grows t :=
  ⟨⟨#[], Array.append_empty.symm⟩, rfl⟩

theorem trans {t t' t'' : Tape R} (h : t.Grows t') (h' : t'.Grows t'') : t.Grows t'' := by
  obtain ⟨⟨added, hadded⟩, hrec⟩ := h
  obtain ⟨⟨added', hadded'⟩, hrec'⟩ := h'
  refine ⟨⟨added ++ added', ?_⟩, hrec'.trans hrec⟩
  rw [hadded', hadded, Array.append_assoc]

theorem record (t : Tape R) (operands : List (Handle × R)) : t.Grows (t.record operands).2 := by
  by_cases h : ∀ o ∈ operands, t.Live o.1
  · rw [record_of_live h]
    exact ⟨⟨#[nodeOf operands t.nextSerial], Array.push_eq_append⟩, rfl⟩
  · rw [record_of_stale h]
    exact ⟨⟨#[], Array.append_empty.symm⟩, rfl⟩

theorem ofOperation (t : Tape R) (x : R) (operands : List (Dual R × R)) :
    t.Grows (Dual.ofOperation t x operands).2 := by
  unfold Dual.ofOperation
  cases h : Dual.tracked operands with
  | nil => exact refl t
  | cons o os => exact record t (o :: os)

theorem leaves (t : Tape R) (xs : List R) : t.Grows (t.leaves xs).2 := by
  rw [leaves_eq]
  exact ⟨⟨_, rfl⟩, rfl⟩

theorem unary [Scalar R] (t : Tape R) (f : Unary) (x : Dual R) :
    t.Grows (Dual.unary t f x).2 := by
  unfold Dual.unary
  split
  · exact refl t
  · exact ofOperation t _ _

theorem binary [Scalar R] (t : Tape R) (f : Binary) (x y : Dual R) :
    t.Grows (Dual.binary t f x y).2 :=
  ofOperation t _ _

/-- Releasing a tape that has grown back to where it was. -/
theorem release_nodes {t t' : Tape R} (h : t.Grows t') : (t'.release t.size).nodes = t.nodes := by
  obtain ⟨added, hadded⟩ := h.nodes
  simp only [Tape.release, hadded, Array.take_eq_extract, Array.extract_append, size]
  simp

end Tape.Grows

/-! ## Tapes with the same nodes -/

section

variable {t t' : Tape R} (h : t.nodes = t'.nodes)

include h

theorem Tape.live_congr (x : Handle) : t.Live x ↔ t'.Live x := by
  rw [Live, Live, h]

variable [Add R] [Mul R] [Zero R] [One R] [BEq R]

/-- A sweep reads nothing of a tape but its nodes. -/
theorem Tape.gradient_congr (mark : Nat) (out : Dual R) (wrt : List (Dual R)) :
    t.gradient mark out wrt = t'.gradient mark out wrt := by
  obtain ⟨nodes, serial, recoveries⟩ := t
  obtain ⟨nodes', serial', recoveries'⟩ := t'
  obtain rfl : nodes = nodes' := h
  have hsweep (n : Nat) (adjoints : Array R) :
      sweep ⟨nodes, serial, recoveries⟩ mark n adjoints =
        sweep ⟨nodes, serial', recoveries'⟩ mark n adjoints := by
    induction n generalizing adjoints with
    | zero => rfl
    | succ n ih => simp only [sweep, ih]
  simp only [gradient, adjoints, hsweep]
  rfl

end

/-! ## Runs that record -/

namespace Workspace

/-- Nothing happened to the tapes but that one of them grew. -/
structure Records (home : Home) (w w' : Workspace R) : Prop where
  grows : (w.tape home).Grows (w'.tape home)
  other : ∀ other, other ≠ home → w'.tape other = w.tape other

namespace Records

variable {home : Home} {w w' w'' : Workspace R}

theorem of_tape_eq (h : ∀ home, w'.tape home = w.tape home) : w.Records home w' :=
  ⟨h home ▸ .refl _, fun other _ => h other⟩

theorem trans (h : w.Records home w') (h' : w'.Records home w'') : w.Records home w'' :=
  ⟨h.grows.trans h'.grows, fun other hne => (h'.other other hne).trans (h.other other hne)⟩

theorem setTape (w : Workspace R) (home : Home) {t : Tape R} (h : (w.tape home).Grows t) :
    w.Records home (w.setTape t home) :=
  ⟨by rwa [tape_setTape], fun _ hne => tape_setTape_of_ne w t hne⟩

end Records

end Workspace

/-- A run adds nodes to one tape, and releases none. -/
def Run.Records {α : Type} (home : Home) (act : Run R α) : Prop :=
  ∀ w : Workspace R, w.Records home (act w).2

namespace Run.Records

variable {home : Home} {α β : Type}

theorem of_tape_eq {act : Run R α}
    (h : ∀ (w : Workspace R) home, (act w).2.tape home = w.tape home) : act.Records home :=
  fun w => .of_tape_eq (h w)

theorem bind {act : Run R α} {f : α → Run R β} (h : act.Records home)
    (hf : ∀ a, (f a).Records home) : (act >>= f).Records home := by
  intro w
  exact Run.bind_induction (h w) fun a v hv => hv.trans (hf a v)

theorem onTape {act : Tape R → Except Breach α × Tape R} (h : ∀ t : Tape R, t.Grows (act t).2) :
    (Run.onTape home act).Records home :=
  fun w => .setTape w home (h _)

theorem reportNodes (home : Home) (name : String) (size mark : Nat) :
    (LogDensity.reportNodes (R := R) home name size mark).Records home :=
  .of_tape_eq fun _ _ => rfl

end Run.Records

/-! ## Programs -/

namespace Simulation

/-- An invariant of workspaces makes every interpretation that keeps it a simulation of itself. -/
def ofInvariant {V : Type} (I : Interpretation R V) (Inv : Workspace R → Prop)
    (houtlet : ∀ w o, Inv w → Inv { w with outlet := o })
    (hlog : ∀ w (es : List Entry), Inv w → Inv { w with journal := w.journal ++ es })
    (hunary : ∀ f x w, Inv w → Inv (I.unary f x w).2)
    (hbinary : ∀ f x y w, Inv w → Inv (I.binary f x y w).2) : Simulation Unit I I where
  states _ w w' := w = w' ∧ Inv w
  values _ := Eq
  mono _ h := h
  primal h := h ▸ rfl
  constant _ _ := rfl
  outlet h := h.1 ▸ rfl
  setOutlet o h := ⟨h.1 ▸ rfl, houtlet _ o h.2⟩
  log es h := ⟨h.1 ▸ rfl, hlog _ es h.2⟩
  unary := by
    rintro _ w _ x _ f ⟨rfl, h⟩ rfl
    exact ⟨(), le_rfl, ⟨rfl, hunary f x w h⟩, .refl _⟩
  binary := by
    rintro _ w _ x _ y _ f ⟨rfl, h⟩ rfl rfl
    exact ⟨(), le_rfl, ⟨rfl, hbinary f x y w h⟩, .refl _⟩

end Simulation

section Densities

variable [Scalar R]

/-- **A density that opens no scope adds nodes to its tape.** -/
theorem records_runDensity {program : Mode → List (Slot R) → List Int → Program R}
    (hfree : ∀ mode xs ints, (program mode xs ints).ScopeFree) (home : Home) (mode : Mode)
    (ints : List Int) (vars : List (Dual R)) :
    (runDensity (.recorded home) program mode ints vars).Records home := by
  intro w
  let S := Simulation.ofInvariant (.recorded home) (w.Records home)
    (fun _ _ h => ⟨h.grows, h.other⟩) (fun _ _ h => ⟨h.grows, h.other⟩)
    (fun f x v h => h.trans (Run.Records.onTape (fun t => .unary t f x) v))
    (fun f x y v h => h.trans (Run.Records.onTape (fun t => .binary t f x y) v))
  have hvars : List.Forall₂ (S.values ()) vars vars := List.forall₂_same.2 fun _ _ => rfl
  have hw : S.states () w w := ⟨rfl, .of_tape_eq fun _ => rfl⟩
  obtain ⟨_, -, ⟨-, h⟩, -⟩ :=
    Simulation.runs_density (.inl fun xs => hfree mode xs ints) hw hvars
  exact h

theorem Run.Records.gradientIn {home : Home} {density : List (Dual R) → Run R (Dual R)}
    (h : ∀ vars, (density vars).Records home) (xs : List R) {report : Nat → Run R Unit}
    (hreport : ∀ mark, (report mark).Records home) (mark : Nat) :
    (LogDensity.gradientIn home xs density report mark).Records home :=
  .bind (.onTape fun t => .leaves t xs) fun vars => .bind (h vars) fun _ =>
    .bind (.onTape .refl) fun _ => .bind (hreport mark) fun _ => .of_tape_eq fun _ _ => rfl

end Densities

/-! ## Scopes -/

namespace Workspace

/-- The tapes hold the nodes that they held before. Each of them was released some number of times;
one that was not released was not touched. -/
structure Restored (n : Home → Nat) (w w' : Workspace R) : Prop where
  nodes : ∀ home, (w'.tape home).nodes = (w.tape home).nodes
  recoveries : ∀ home, (w'.tape home).recoveries = (w.tape home).recoveries + n home
  untouched : ∀ home, n home = 0 → w'.tape home = w.tape home

namespace Restored

variable {n n' : Home → Nat} {w w' w'' : Workspace R}

theorem of_tape_eq (h : ∀ home, w'.tape home = w.tape home) : w.Restored 0 w' :=
  ⟨fun home => by rw [h], fun home => by rw [h]; rfl, fun home _ => h home⟩

theorem trans (h : w.Restored n w') (h' : w'.Restored n' w'') : w.Restored (n + n') w'' where
  nodes home := (h'.nodes home).trans (h.nodes home)
  recoveries home := by
    rw [h'.recoveries, h.recoveries, Pi.add_apply, Nat.add_assoc]
  untouched home hzero := by
    obtain ⟨hn, hn'⟩ := Nat.add_eq_zero_iff.1 hzero
    exact (h'.untouched home hn').trans (h.untouched home hn)

/-- What happens before and after without touching a tape does not matter. -/
theorem congr {v v' : Workspace R} (h : w.Restored n w')
    (hv : ∀ home, v.tape home = w.tape home) (hv' : ∀ home, v'.tape home = w'.tape home) :
    v.Restored n v' :=
  ⟨fun home => by rw [hv, hv', h.nodes], fun home => by rw [hv, hv', h.recoveries],
    fun home hzero => by rw [hv, hv', h.untouched home hzero]⟩

end Restored

/-- A release of a tape that has grown. -/
theorem Records.release {home : Home} {w w' : Workspace R} (h : w.Records home w') :
    w.Restored (Pi.single home 1) (w'.release home (w.tape home).size) where
  nodes other := by
    by_cases hne : other = home
    · subst hne
      rw [tape_release, h.grows.release_nodes]
    · rw [tape_release_of_ne _ _ hne, h.other other hne]
  recoveries other := by
    by_cases hne : other = home
    · subst hne
      rw [tape_release, Pi.single_eq_same, ← h.grows.recoveries]
      rfl
    · rw [tape_release_of_ne _ _ hne, h.other other hne, Pi.single_eq_of_ne hne, Nat.add_zero]
  untouched other hzero := by
    by_cases hne : other = home
    · subst hne
      rw [Pi.single_eq_same] at hzero
      cases hzero
    · rw [tape_release_of_ne _ _ hne, h.other other hne]

end Workspace

/-- **A scope around a run that adds nodes restores the tapes.** -/
theorem Run.Records.withScope {home : Home} {α : Type} {act : Nat → Run R α}
    (h : ∀ mark, (act mark).Records home) (w : Workspace R) :
    w.Restored (Pi.single home 1) (Run.withScope home act w).2 :=
  (h _ w).release

theorem Run.Records.valueAt {home : Home} {density : List (Dual R) → Run R (Dual R)}
    (h : ∀ vars, (density vars).Records home) (xs : List R) (w : Workspace R) :
    w.Restored (Pi.single home 1) (LogDensity.valueAt home xs density w).2 :=
  withScope (fun _ => .bind (.onTape fun t => .leaves t xs) fun vars =>
    .bind (h vars) fun _ => .of_tape_eq fun _ _ => rfl) w

/-- A number that depends on how a run ends; zero if it stops. -/
def Run.after {α : Type} (act : Run R α) (w : Workspace R) (count : α → Workspace R → Nat) : Nat :=
  match act w with
  | (.ok a, v) => count a v
  | (.error _, _) => 0

theorem Run.after_eq_zero {α : Type} (act : Run R α) (w : Workspace R)
    {count : α → Workspace R → Nat} (h : ∀ a v, count a v = 0) : Run.after act w count = 0 := by
  unfold Run.after
  split
  · exact h _ _
  · rfl

/-- One run after the other, unless the first one stops. -/
theorem Run.restored_bind {α β : Type} {home : Home} {act : Run R α} {f : α → Run R β} {n : Nat}
    {count : α → Workspace R → Nat} {w : Workspace R}
    (h : w.Restored (Pi.single home n) (act w).2)
    (hf : ∀ a (v : Workspace R), v.Restored (Pi.single home (count a v)) (f a v).2) :
    w.Restored (Pi.single home (n + Run.after act w count)) ((act >>= f) w).2 := by
  simp only [Bind.bind, Run.after]
  generalize act w = out at h
  obtain ⟨a, v⟩ := out
  cases a with
  | ok a =>
    rw [Pi.single_add]
    exact h.trans (hf a v)
  | error s => exact h

/-! ## Outlets -/

theorem Workspace.tape_inform (w : Workspace R) (message : String) (home : Home) :
    (w.inform message).tape home = w.tape home := by
  unfold inform
  split
  · rfl
  · rfl

namespace Action

variable {α : Type} (broken : α → Bool) (act : Action R α)

theorem tape_collected (w : Workspace R) (home : Home) :
    (collected broken act w).2.tape home =
      (act { w with outlet := .stream (.attached (.memory "")) }).2.tape home := by
  simp only [collected]
  split
  · rfl
  · rw [Workspace.tape_inform]
    rfl

/-- Routing the text of an action is running it with some outlet, as far as tapes go. -/
theorem exists_tape_routed (w : Workspace R) :
    ∃ outlet, ∀ home, (routed broken act w).2.tape home = (act { w with outlet }).2.tape home := by
  unfold routed
  split
  · exact ⟨w.outlet, fun _ => rfl⟩
  · exact ⟨_, tape_collected broken act w⟩

end Action

/-- The workspace in which the text of an action is collected. -/
def Workspace.collecting (w : Workspace R) : Workspace R :=
  { w with outlet := .stream (.attached (.memory "")) }

theorem Run.restored_collected {α : Type} {act : Run R α} {n : Home → Nat} {w : Workspace R}
    (h : w.collecting.Restored n (act w.collecting).2) :
    w.Restored n (Run.collected act w).2 :=
  h.congr (fun _ => rfl) (Action.tape_collected isBreach act w)

theorem Run.Records.routed {home : Home} {α : Type} {act : Run R α} (h : act.Records home) :
    (Run.routed act).Records home := by
  intro w
  obtain ⟨outlet, htape⟩ := Action.exists_tape_routed isBreach act w
  obtain ⟨hgrows, hother⟩ := h { w with outlet }
  exact ⟨htape home ▸ hgrows, fun other hne => (htape other).trans (hother other hne)⟩

namespace Run

variable {α β : Type}

/-- A run touches no tape. -/
def KeepsTapes (act : Run R α) : Prop :=
  ∀ (w : Workspace R) home, (act w).2.tape home = w.tape home

theorem KeepsTapes.bind {act : Run R α} {f : α → Run R β} (h : act.KeepsTapes)
    (hf : ∀ a, (f a).KeepsTapes) : (act >>= f).KeepsTapes := by
  intro w home
  exact bind_induction (P := fun v => v.tape home = w.tape home) (h w home) fun a v hv =>
    (hf a v home).trans hv

theorem KeepsTapes.forM {xs : List α} {f : α → Run R PUnit} (h : ∀ a, (f a).KeepsTapes) :
    (xs.forM f).KeepsTapes := by
  induction xs with
  | nil => exact fun _ _ => rfl
  | cons x xs ih => exact (h x).bind fun _ => ih

theorem keepsTapes_inform (message : String) : (Run.inform (R := R) message).KeepsTapes :=
  fun w home => w.tape_inform message home

/-- What follows a run without touching a tape changes nothing. -/
theorem restored_bind_of_keepsTapes {act : Run R α} {f : α → Run R β} {n : Home → Nat}
    {w : Workspace R} (h : w.Restored n (act w).2) (hf : ∀ a, (f a).KeepsTapes) :
    w.Restored n ((act >>= f) w).2 :=
  bind_induction h fun a v hv => hv.congr (fun _ => rfl) (hf a v)

end Run

theorem Report.tape_run {α : Type} (r : Report α) (w : Workspace R) (home : Home) :
    (r.run w).2.tape home = w.tape home := by
  induction r generalizing w with
  | done a => rfl
  | write text next ih =>
    unfold run Run.write
    cases w.outlet with
    | stream m => exact ih _ _
    | logger l => exact ih _ _
  | active next ih => exact ih _ _

/-- Reports touch no tape, wherever their text goes. -/
theorem Report.tape_routed {α : Type} (broken : α → Bool) (r : Report α) (w : Workspace R)
    (home : Home) : (Action.routed broken r.run w).2.tape home = w.tape home := by
  obtain ⟨outlet, htape⟩ := Action.exists_tape_routed broken r.run w
  exact (htape home).trans (r.tape_run _ home)

end LogDensity
