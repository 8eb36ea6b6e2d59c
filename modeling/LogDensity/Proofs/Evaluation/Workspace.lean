import LogDensity.Workspace

/-!
# Workspaces under change

What a change of a workspace leaves alone: replacing one tape keeps the other, the journal and the
outlet, and releasing one keeps the other. What every part of a run keeps, the run keeps
(`Run.bind_induction`), and runs obey the laws of a monad.
-/

namespace LogDensity

variable {R : Type}

namespace Workspace

@[simp] theorem tape_setTape (w : Workspace R) (t : Tape R) (home : Home) :
    (w.setTape t home).tape home = t := by
  cases home <;> rfl

theorem tape_setTape_of_ne (w : Workspace R) (t : Tape R) {home other : Home} (h : other ≠ home) :
    (w.setTape t home).tape other = w.tape other := by
  cases home <;> cases other <;> first | rfl | exact absurd rfl h

/-- The same tape put into two workspaces makes no difference that there was not. -/
theorem tape_setTape_congr {w w' : Workspace R} {other : Home} (h : w.tape other = w'.tape other)
    (t : Tape R) (home : Home) :
    (w.setTape t home).tape other = (w'.setTape t home).tape other := by
  cases home <;> cases other <;> first | rfl | exact h

theorem setTape_tape (w : Workspace R) (home : Home) : w.setTape (w.tape home) home = w := by
  cases home <;> rfl

@[simp] theorem outlet_setTape (w : Workspace R) (t : Tape R) (home : Home) :
    (w.setTape t home).outlet = w.outlet := by
  cases home <;> rfl

@[simp] theorem journal_setTape (w : Workspace R) (t : Tape R) (home : Home) :
    (w.setTape t home).journal = w.journal := by
  cases home <;> rfl

theorem tape_release (w : Workspace R) (home : Home) (mark : Nat) :
    (w.release home mark).tape home = (w.tape home).release mark := by
  rw [← tape_setTape w ((w.tape home).release mark) home]
  rfl

theorem tape_release_of_ne (w : Workspace R) {home other : Home} (mark : Nat) (h : other ≠ home) :
    (w.release home mark).tape other = w.tape other := by
  rw [← tape_setTape_of_ne w ((w.tape home).release mark) h]
  rfl

end Workspace

/-- A look at a tape leaves the workspace as it is. -/
theorem Run.onTape_look {α : Type} (home : Home) (f : Tape R → Except Breach α)
    (w : Workspace R) :
    Run.onTape home (fun t => (f t, t)) w = ((f (w.tape home)).mapError .breach, w) := by
  simp only [Run.onTape, Workspace.setTape_tape]

/-- What holds after a run, and is kept by what follows, holds after both. -/
theorem Run.bind_induction {α β : Type} {P : Workspace R → Prop} {act : Run R α}
    {f : α → Run R β} {w : Workspace R} (h : P (act w).2) (hf : ∀ a v, P v → P (f a v).2) :
    P ((act >>= f) w).2 := by
  simp only [Bind.bind]
  generalize act w = out at h
  obtain ⟨a, v⟩ := out
  cases a with
  | ok a => exact hf a v h
  | error s => exact h

theorem Run.bind_of_ok {α β : Type} {act : Run R α} {f : α → Run R β} {w v : Workspace R} {a : α}
    (h : act w = (.ok a, v)) : (act >>= f) w = f a v := by
  simp only [Bind.bind, h]

theorem Run.bind_of_error {α β : Type} {act : Run R α} {f : α → Run R β} {w v : Workspace R}
    {s : Stop} (h : act w = (.error s, v)) : (act >>= f) w = (.error s, v) := by
  simp only [Bind.bind, h]

/-- A step that only computes changes nothing but the result. -/
theorem Run.bind_pure_eq {α β : Type} (act : Run R α) (f : α → β) (w : Workspace R) :
    (act >>= fun a => pure (f a)) w = ((act w).1.map f, (act w).2) := by
  simp only [Bind.bind]
  cases act w with
  | mk a v => cases a <;> rfl

theorem Run.snd_bind_pure {α β : Type} (act : Run R α) (f : α → β) (w : Workspace R) :
    ((act >>= fun a => pure (f a)) w).2 = (act w).2 :=
  congrArg Prod.snd (bind_pure_eq act f w)

/-- Two runs that are not stopped. -/
theorem Run.bind_eq_ok {α β : Type} {act : Run R α} {f : α → Run R β} {w v : Workspace R} {b : β} :
    (act >>= f) w = (.ok b, v) ↔ ∃ a u, act w = (.ok a, u) ∧ f a u = (.ok b, v) := by
  simp only [Bind.bind]
  generalize act w = out
  obtain ⟨a, u⟩ := out
  constructor
  · intro h
    cases a with
    | ok a => exact ⟨a, u, rfl, h⟩
    | error s => cases h
  · rintro ⟨_, _, ⟨⟩, hf⟩
    exact hf

instance : LawfulMonad (Run R) := by
  refine LawfulMonad.mk' _ (fun act => ?_) (fun _ _ => rfl) fun act f g => ?_
  · funext w
    simp only [Functor.map]
    cases act w with
    | mk a v => cases a <;> rfl
  · funext w
    simp only [Bind.bind]
    cases act w with
    | mk a v => cases a <;> rfl

end LogDensity
