import LogDensity.Proofs.Evaluation.Frame

/-!
# What any program adds to the tapes

A density may evaluate other densities, which open scopes of their own on the common tape and count
recoveries there. All the same, nothing that was on a tape before is lost (`Tape.Extends`): a
program appends nodes to the tape that it is recorded on, each of which refers backwards, and the
other tape holds the same nodes before and after.

* `Program.extends_run`: this is so for any program.
* `Program.keepsNodes_nestedRun`: the evaluation of another density keeps the nodes of both tapes.
-/

namespace LogDensity

variable {R : Type}

/-! ## Tapes -/

/-- The nodes are still there, and those that came behind them refer backwards. -/
structure Tape.Extends (t t' : Tape R) : Prop where
  nodes : ∃ added, t'.nodes = t.nodes ++ added
  ordered : t'.OrderedFrom t.size

namespace Tape.Extends

variable {t t' t'' : Tape R}

theorem of_nodes_eq (h : t'.nodes = t.nodes) : t.Extends t' where
  nodes := ⟨#[], by rw [h, Array.append_empty]⟩
  ordered i hi node hnode := by
    rw [h, Array.getElem?_eq_none hi] at hnode
    cases hnode

theorem getElem?_eq (h : t.Extends t') {i : Nat} (hi : i < t.size) :
    t'.nodes[i]? = t.nodes[i]? := by
  obtain ⟨added, hadded⟩ := h.nodes
  rw [hadded, Array.getElem?_append_left hi]

theorem trans (h : t.Extends t') (h' : t'.Extends t'') : t.Extends t'' where
  nodes := by
    obtain ⟨added, hadded⟩ := h.nodes
    obtain ⟨added', hadded'⟩ := h'.nodes
    exact ⟨added ++ added', by rw [hadded', hadded, Array.append_assoc]⟩
  ordered i hi node hnode := by
    by_cases hlt : i < t'.size
    · rw [h'.getElem?_eq hlt] at hnode
      exact h.ordered i hi node hnode
    · exact h'.ordered i (Nat.le_of_not_lt hlt) node hnode

/-- What was live is live. -/
theorem live (h : t.Extends t') {x : Handle} (hx : t.Live x) : t'.Live x := by
  rw [Live, h.getElem?_eq hx.index_lt]
  exact hx

theorem dual_live (h : t.Extends t') {x : Dual R} (hx : x.Live t) : x.Live t' :=
  fun y hy => h.live (hx y hy)

theorem record (t : Tape R) (operands : List (Handle × R)) : t.Extends (t.record operands).2 where
  nodes := (Grows.record t operands).nodes
  ordered := (of_nodes_eq rfl).ordered.record operands

theorem ofOperation (t : Tape R) (x : R) (operands : List (Dual R × R)) :
    t.Extends (Dual.ofOperation t x operands).2 := by
  unfold Dual.ofOperation
  cases Dual.tracked operands with
  | nil => exact of_nodes_eq rfl
  | cons o os => exact record t (o :: os)

theorem leaves (t : Tape R) (xs : List R) : t.Extends (t.leaves xs).2 := by
  induction xs generalizing t with
  | nil => exact of_nodes_eq rfl
  | cons x xs ih =>
    have hnone : ∀ o ∈ ([] : List (Handle × R)), t.Live o.1 := fun _ h => nomatch h
    have hleaf : (Dual.leaf t x).2 = (t.record []).2 := by
      rw [leaf_eq, record_of_live hnone]
      rfl
    have hhead : t.Extends (Dual.leaf t x).2 := hleaf ▸ record t []
    exact hhead.trans (ih _)

theorem unary [Scalar R] (t : Tape R) (f : Unary) (x : Dual R) :
    t.Extends (Dual.unary t f x).2 := by
  unfold Dual.unary
  split
  · exact of_nodes_eq rfl
  · exact ofOperation t _ _

theorem binary [Scalar R] (t : Tape R) (f : Binary) (x y : Dual R) :
    t.Extends (Dual.binary t f x y).2 :=
  ofOperation t _ _

/-- A release back to where the tape was. -/
theorem release_nodes (h : t.Extends t') : (t'.release t.size).nodes = t.nodes :=
  (⟨h.nodes, rfl⟩ : t.Grows { t' with recoveries := t.recoveries }).release_nodes

end Tape.Extends

/-! ## Workspaces -/

/-- One tape was extended, and the others hold the nodes that they held. -/
structure Workspace.Extends (home : Home) (w w' : Workspace R) : Prop where
  tape : (w.tape home).Extends (w'.tape home)
  other : ∀ other, other ≠ home → (w'.tape other).nodes = (w.tape other).nodes

namespace Workspace.Extends

variable {home : Home} {w w' w'' : Workspace R}

theorem of_nodes_eq (h : ∀ home, (w'.tape home).nodes = (w.tape home).nodes) :
    w.Extends home w' :=
  ⟨.of_nodes_eq (h home), fun other _ => h other⟩

theorem trans (h : w.Extends home w') (h' : w'.Extends home w'') : w.Extends home w'' :=
  ⟨h.tape.trans h'.tape, fun other hne => (h'.other other hne).trans (h.other other hne)⟩

/-- A release of the tape that was extended. -/
theorem release_nodes (h : w.Extends home w') (other : Home) :
    ((w'.release home (w.tape home).size).tape other).nodes = (w.tape other).nodes := by
  by_cases hne : other = home
  · subst hne
    rw [tape_release, h.tape.release_nodes]
  · rw [tape_release_of_ne _ _ hne, h.other other hne]

end Workspace.Extends

namespace Run

variable {home : Home} {α β : Type}

/-- A run extends one tape. -/
def Extends (home : Home) (act : Run R α) : Prop :=
  ∀ w : Workspace R, w.Extends home (act w).2

/-- A run leaves the nodes of the tapes as they are. -/
def KeepsNodes (act : Run R α) : Prop :=
  ∀ (w : Workspace R) home, ((act w).2.tape home).nodes = (w.tape home).nodes

theorem KeepsTapes.keepsNodes {act : Run R α} (h : act.KeepsTapes) : act.KeepsNodes :=
  fun w home => congrArg Tape.nodes (h w home)

theorem KeepsNodes.extends {act : Run R α} (h : act.KeepsNodes) : act.Extends home :=
  fun w => .of_nodes_eq (h w)

namespace Extends

theorem bind {act : Run R α} {f : α → Run R β} (h : act.Extends home)
    (hf : ∀ a, (f a).Extends home) : (act >>= f).Extends home :=
  fun w => Run.bind_induction (h w) fun a v hv => hv.trans (hf a v)

theorem onTape {act : Tape R → Except Breach α × Tape R} (h : ∀ t : Tape R, t.Extends (act t).2) :
    (Run.onTape home act).Extends home := by
  intro w
  refine ⟨?_, fun other hne => congrArg Tape.nodes (Workspace.tape_setTape_of_ne w _ hne)⟩
  simpa only [Run.onTape, Workspace.tape_setTape] using h (w.tape home)

/-- **A scope around a run that extends its tape keeps the nodes of all tapes.** -/
theorem withScope {act : Nat → Run R α} (h : ∀ mark, (act mark).Extends home) :
    (Run.withScope home act).KeepsNodes :=
  fun w => (h _ w).release_nodes

end Extends

theorem KeepsNodes.silently {act : Run R α} (h : act.KeepsNodes) : (Run.silently act).KeepsNodes :=
  fun w => h { w with outlet := .stream .none }

end Run

/-! ## Programs -/

section Programs

variable [Scalar R] {home : Home} {density : List (Dual R) → Run R (Dual R)}

theorem Run.Extends.gradientIn (h : ∀ vars, (density vars).Extends home) (xs : List R)
    {report : Nat → Run R Unit} (hreport : ∀ mark, (report mark).KeepsTapes) (mark : Nat) :
    (LogDensity.gradientIn home xs density report mark).Extends home :=
  .bind (.onTape fun t => .leaves t xs) fun vars => .bind (h vars) fun _ =>
    .bind (.onTape fun _ => .of_nodes_eq rfl) fun _ =>
      .bind (hreport mark).keepsNodes.extends fun _ _ => .of_nodes_eq fun _ => rfl

/-- An evaluation with its gradient keeps the nodes of all tapes. -/
theorem Run.Extends.differentiate (h : ∀ vars, (density vars).Extends home) (name : String)
    (size : Nat) (xs : List R) :
    (LogDensity.differentiate home name size xs density).KeepsNodes := by
  by_cases hsize : size ≤ xs.length
  · rw [differentiate_of_le hsize, gradientAt_eq]
    exact withScope (.gradientIn h _ fun mark _ _ => rfl)
  · rw [differentiate_of_lt (Nat.lt_of_not_le hsize)]
    exact fun _ _ => rfl

namespace Program

/-- **A program extends the tape that it is recorded on.** -/
theorem extends_run (p : Program R) (home : Home) (env : Array (Dual R)) :
    (p.run (.recorded home) env).Extends home := by
  induction p generalizing home env with
  | result x => exact fun _ => .of_nodes_eq fun _ => rfl
  | constant c next ih => exact ih _ home _
  | unary f x next ih => exact .bind (.onTape fun t => .unary t f _) fun v => ih _ home _
  | binary f x y next ih => exact .bind (.onTape fun t => .binary t f _ _) fun v => ih _ home _
  | write text next ih =>
    refine .bind (fun w => .of_nodes_eq fun _ => ?_) fun b => ih b home env
    unfold Run.write
    split <;> rfl
  | active next ih => exact .bind (fun _ => .of_nodes_eq fun _ => rfl) fun b => ih b home env
  | nested name size values body next ihbody ihnext =>
    -- the other density is recorded on the common tape, whatever tape this one is on
    have hbody : (nestedRun name size values body).KeepsNodes :=
      .silently <|
        Run.Extends.differentiate (fun vars => ihbody .common vars.toArray) name size values
    exact .bind hbody.extends fun a => ihnext a.1 a.2 home env
  | fail e => exact fun _ => .of_nodes_eq fun _ => rfl
  | halt b => exact fun _ => .of_nodes_eq fun _ => rfl

theorem keepsNodes_nestedRun (name : String) (size : Nat) (values : List R) (body : Program R) :
    (nestedRun name size values body).KeepsNodes :=
  .silently (Run.Extends.differentiate (fun _ => body.extends_run .common _) name size values)

end Program

end Programs

end LogDensity
