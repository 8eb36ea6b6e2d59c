import LogDensity.Models.NormalScale
import LogDensity.Program.Step
import LogDensity.Proofs.Program.Simulation

/-!
# Steps that open no scopes

The steps of a density open no scope of their own unless they evaluate another density
(`Step.ScopeFree`). What is so for single steps passes on to steps one after the other; so a program
that evaluates no other density is scope-free, as that of the normal model is
(`NormalScale.scopeFree_program`).
-/

namespace LogDensity

namespace Step

variable {K α β : Type}

/-- The steps evaluate no other density. -/
def ScopeFree (s : Step K α) : Prop :=
  ∀ next, (∀ a, (next a).ScopeFree) → (s next).ScopeFree

theorem ScopeFree.toProgram {s : Step K (Slot K)} (hs : s.ScopeFree) : s.toProgram.ScopeFree :=
  hs .result fun _ => trivial

theorem ScopeFree.bind {s : Step K α} {f : α → Step K β} (hs : s.ScopeFree)
    (hf : ∀ a, (f a).ScopeFree) : (s >>= f).ScopeFree :=
  fun next hnext => hs _ fun a => hf a next hnext

theorem scopeFree_pure (a : α) : (pure a : Step K α).ScopeFree :=
  fun _ hnext => hnext a

theorem scopeFree_constant (c : K) : (constant c).ScopeFree :=
  fun _ hnext => hnext

theorem scopeFree_unary (f : Unary) (x : Slot K) : (unary f x).ScopeFree :=
  fun _ hnext => hnext

theorem scopeFree_binary (f : Binary) (x y : Slot K) : (binary f x y).ScopeFree :=
  fun _ hnext => hnext

theorem scopeFree_write (text : String) : (write text : Step K Unit).ScopeFree :=
  fun _ hnext _ => hnext ()

theorem scopeFree_halt (b : Breach) : (halt b : Step K α).ScopeFree :=
  fun _ _ => trivial

theorem scopeFree_element (xs : List (Slot K)) (i : Nat) : (element xs i).ScopeFree := by
  unfold element
  split
  · exact scopeFree_pure _
  · exact scopeFree_halt _

theorem scopeFree_foldlM {f : β → α → Step K β} (hf : ∀ b a, (f b a).ScopeFree) (xs : List α)
    (b : β) : (xs.foldlM f b).ScopeFree := by
  induction xs generalizing b with
  | nil => exact scopeFree_pure b
  | cons x xs ih => exact (hf b x).bind ih

end Step

namespace NormalScale

variable {R : Type} [Scalar R]

theorem scopeFree_observe (mu sigma lp : Slot R) (y : R) : (observe mu sigma lp y).ScopeFree :=
  .bind (Step.scopeFree_constant y) fun _ => .bind (Step.scopeFree_binary _ _ _) fun _ =>
    .bind (Step.scopeFree_binary _ _ _) fun _ => .bind (Step.scopeFree_constant _) fun _ =>
      .bind (Step.scopeFree_binary _ _ _) fun _ => .bind (Step.scopeFree_binary _ _ _) fun _ =>
        Step.scopeFree_binary _ _ _

theorem scopeFree_program [Printable R] (ys : List R) (chatty : Bool) (mode : Mode)
    (params : List (Slot R)) (ints : List Int) :
    (program ys chatty mode params ints).ScopeFree := by
  refine Step.ScopeFree.toProgram (.bind (Step.scopeFree_element _ _) fun mu =>
    .bind (Step.scopeFree_element _ _) fun logSigma =>
      .bind (Step.scopeFree_unary _ _) fun sigma => ?_)
  extract_lets n last twoPi rest
  have hlast (lp : Slot R) : (last lp).ScopeFree := by
    unfold last
    split
    · exact Step.scopeFree_binary _ _ _
    · exact Step.scopeFree_pure _
  have hrest (r : PUnit) : (rest r).ScopeFree := by
    refine .bind (Step.scopeFree_unary _ _) fun _ => .bind (Step.scopeFree_constant _) fun _ =>
      .bind (Step.scopeFree_binary _ _ _) fun _ =>
        .bind (Step.scopeFree_foldlM (scopeFree_observe mu sigma) ys _) fun lp => ?_
    split
    · exact .bind (Step.scopeFree_pure _) hlast
    · exact .bind (Step.scopeFree_constant _) fun _ => .bind (Step.scopeFree_binary _ _ _) hlast
  split
  · exact .bind (Step.scopeFree_write _) hrest
  · exact hrest ⟨⟩

end NormalScale

end LogDensity
