import LogDensity.Proofs.Evaluation.Workspace
import LogDensity.Proofs.Program.Course
import LogDensity.Proofs.Program.Steps
import LogDensity.Proofs.Tape.Recording

/-!
# What a program records

A program computes by elementary operations, functions of one or two dual numbers. A `Primitive` is
such an operation with its operands, and `Program.primitives` lists those that a run carries out.
Each of them is recorded as one node that holds the operands which are not constant, in order, if
there are any; and nothing else that a program does is recorded.

* `Program.recording_run`: what a program records that is not stopped.
* `Step.Applies`: the functions that a part of a program applies, as a list that is put together
  when the parts are.
-/

namespace LogDensity

variable {R : Type}

/-! ## Appended nodes -/

namespace Tape

/-- The tape with one more node for each row of operands. -/
def append (t : Tape R) (rows : List (List (Handle × R))) : Tape R :=
  { t with
    nodes := t.nodes ++ ((rows.zipIdx t.nextSerial).map fun row => nodeOf row.1 row.2).toArray
    nextSerial := t.nextSerial + rows.length }

@[simp] theorem append_nil (t : Tape R) : t.append [] = t := by
  simp [append]

theorem append_append (t : Tape R) (rows rows' : List (List (Handle × R))) :
    (t.append rows).append rows' = t.append (rows ++ rows') := by
  simp [append, List.zipIdx_append, Nat.add_assoc]

theorem live_append {t : Tape R} {h : Handle} (hl : t.Live h)
    (rows : List (List (Handle × R))) : (t.append rows).Live h := by
  have hlt : h.index < t.nodes.size := hl.index_lt
  rw [Live, append, Array.getElem?_append_left hlt]
  exact hl

end Tape

/-- A row is left out if it is empty. -/
def Dual.row (operands : List (Dual R × R)) : List (List (Handle × R)) :=
  [tracked operands].filter fun row => !row.isEmpty

namespace Dual

theorem Live.append {t : Tape R} {x : Dual R} (hx : x.Live t)
    (rows : List (List (Handle × R))) : x.Live (t.append rows) :=
  fun h hh => Tape.live_append (hx h hh) rows

theorem tracked_of_constant {operands : List (Dual R × R)}
    (h : ∀ o ∈ operands, o.1.isConstant = true) : tracked operands = [] := by
  refine List.filterMap_eq_nil_iff.2 fun o ho => ?_
  rw [Option.isNone_iff_eq_none.1 (h o ho), Option.map_none]

/-- An operation that is not refused appends the row of its operands; its result is live, and
constant if the operands are. -/
theorem ofOperation_eq_ok {t t' : Tape R} {x : R} {operands : List (Dual R × R)} {y : Dual R}
    (h : ofOperation t x operands = (.ok y, t')) :
    t' = t.append (row operands) ∧ y.Live t' ∧ (tracked operands = [] → y.isConstant = true) := by
  by_cases hconst : tracked operands = []
  · rw [ofOperation_of_constant hconst] at h
    obtain ⟨⟨rfl⟩, rfl⟩ := Prod.mk.inj h
    refine ⟨?_, nofun, fun _ => rfl⟩
    rw [row, hconst]
    exact (Tape.append_nil t).symm
  · by_cases hl : ∀ o ∈ operands, o.1.Live t
    · rw [ofOperation_of_live hconst hl] at h
      obtain ⟨⟨rfl⟩, rfl⟩ := Prod.mk.inj h
      refine ⟨?_, ?_, fun h => absurd h hconst⟩
      · simp only [Array.push_eq_append]
        simp [row, hconst, Tape.append]
      · rintro h ⟨⟩
        simp [Tape.Live, Tape.nodeOf, Tape.size]
    · rw [ofOperation_of_stale hl] at h
      cases h

end Dual

/-! ## Elementary operations -/

/-- An elementary operation with its operands. -/
inductive Primitive (R : Type)
  | unary (f : Unary) (x : Dual R)
  | binary (f : Binary) (x y : Dual R)

namespace Primitive

/-- The function that is applied. -/
def function : Primitive R → Unary ⊕ Binary
  | unary f _ => .inl f
  | binary f _ _ => .inr f

variable [Scalar R]

/-- The operands, with the partial derivatives of the result. -/
def operands : Primitive R → List (Dual R × R)
  | unary f x => [(x, f.slope x.value)]
  | binary f x y => [(x, (f.slopes x.value y.value).1), (y, (f.slopes x.value y.value).2)]

/-- Carries out an operation on a tape. -/
def run (t : Tape R) : Primitive R → Except Breach (Dual R) × Tape R
  | unary f x => Dual.unary t f x
  | binary f x y => Dual.binary t f x y

/-- The operands that the nodes of operations hold, for those that have a node. -/
def rows (ops : List (Primitive R)) : List (List (Handle × R)) :=
  (ops.map fun a => Dual.tracked a.operands).filter fun row => !row.isEmpty

theorem rows_append (ops ops' : List (Primitive R)) :
    rows (ops ++ ops') = rows ops ++ rows ops' := by
  simp [rows]

theorem rows_cons (a : Primitive R) (ops : List (Primitive R)) :
    rows (a :: ops) = Dual.row a.operands ++ rows ops :=
  rows_append [a] ops

/-- What an operation records that is not refused. -/
theorem run_eq_ok {t t' : Tape R} {a : Primitive R} {y : Dual R} (h : a.run t = (.ok y, t')) :
    t' = t.append (Dual.row a.operands) ∧ y.Live t' ∧
      ((∀ o ∈ a.operands, o.1.isConstant = true) → y.isConstant = true) := by
  have hop : ∃ x, Dual.ofOperation t x a.operands = (.ok y, t') := by
    cases a with
    | unary f x =>
      rw [run, Dual.unary] at h
      split at h
      · cases h
      · exact ⟨_, h⟩
    | binary f x y => exact ⟨_, h⟩
  obtain ⟨x, hop⟩ := hop
  obtain ⟨ht, hlive, hconst⟩ := Dual.ofOperation_eq_ok hop
  exact ⟨ht, hlive, fun h => hconst (Dual.tracked_of_constant h)⟩

end Primitive

/-! ## Runs -/

theorem Run.onTape_eq_ok {α : Type} (home : Home) (act : Tape R → Except Breach α × Tape R)
    {w w' : Workspace R} {a : α} (h : Run.onTape home act w = (.ok a, w')) :
    ∃ t, act (w.tape home) = (.ok a, t) ∧ w' = w.setTape t home := by
  simp only [Run.onTape] at h
  generalize act (w.tape home) = out at h
  obtain ⟨b, t⟩ := out
  cases b with
  | ok b =>
    obtain ⟨⟨rfl⟩, rfl⟩ := Prod.mk.inj h
    exact ⟨t, rfl, rfl⟩
  | error b => cases h

namespace Primitive

variable [Scalar R] {home : Home} {w w' : Workspace R} {x x' y : Dual R}

theorem recorded_unary_eq_ok {f : Unary}
    (h : (Interpretation.recorded home).unary f x w = (.ok y, w')) :
    ∃ t, run (w.tape home) (unary f x) = (.ok y, t) ∧ w' = w.setTape t home :=
  Run.onTape_eq_ok home (fun t => run t (unary f x)) h

theorem recorded_binary_eq_ok {f : Binary}
    (h : (Interpretation.recorded home).binary f x x' w = (.ok y, w')) :
    ∃ t, run (w.tape home) (binary f x x') = (.ok y, t) ∧ w' = w.setTape t home :=
  Run.onTape_eq_ok home (fun t => run t (binary f x x')) h

end Primitive

theorem Run.onward_of_ok {α β : Type} {act : Run R α} {w w' : Workspace R} {a : α}
    (h : act w = (.ok a, w')) (f : α → Workspace R → List β) : act.onward f w = f a w' := by
  rw [onward, h]

variable [Scalar R]

/-- The elementary operations that a run on dual numbers carries out, with their operands, in order.
Those of another density that it evaluates are not listed. -/
def Program.primitives (home : Home) (env : Array (Dual R)) :
    Program R → Workspace R → List (Primitive R)
  | result _ => fun _ => []
  | constant c next => fun w =>
    let v := Dual.constant c
    (next ⟨env.size, v.value⟩).primitives home (env.push v) w
  | unary f x next => fun w =>
    let I := Interpretation.recorded home
    .unary f (I.fetch env x) :: (I.unary f (I.fetch env x)).onward
      (fun v => (next (I.slot env v)).primitives home (env.push v)) w
  | binary f x y next => fun w =>
    let I := Interpretation.recorded home
    .binary f (I.fetch env x) (I.fetch env y) ::
      (I.binary f (I.fetch env x) (I.fetch env y)).onward
        (fun v => (next (I.slot env v)).primitives home (env.push v)) w
  | write text next => fun w =>
    (Run.write text).onward (fun taken => (next taken).primitives home env) w
  | active next => fun w => Run.active.onward (fun kept => (next kept).primitives home env) w
  | nested name size values body next => fun w =>
    (nestedRun name size values body).onward (fun a => (next a.1 a.2).primitives home env) w
  | fail _ => fun _ => []
  | halt _ => fun _ => []

/-- What a run from the results `env` so far to the number `y` records, if it carries out the
operations `ops`. -/
structure Recording (home : Home) (env : Array (Dual R)) (w : Workspace R)
    (ops : List (Primitive R)) (y : Dual R) (w' : Workspace R) : Prop where
  tape : w'.tape home = (w.tape home).append (Primitive.rows ops)
  live : (∀ x ∈ env, x.Live (w.tape home)) → y.Live (w'.tape home)
  constant : (∀ x ∈ env, x.isConstant = true) → Primitive.rows ops = [] ∧ y.isConstant = true

namespace Recording

variable {home : Home} {env : Array (Dual R)} {w u w' : Workspace R} {ops : List (Primitive R)}
  {y v : Dual R}

/-- What holds of zero and of all results so far holds of the number that a slot stands for. -/
theorem fetch_of_forall {P : Dual R → Prop} (hzero : P (Dual.constant 0)) (henv : ∀ x ∈ env, P x)
    (x : Slot R) : P ((Interpretation.recorded home).fetch env x) := by
  rw [Interpretation.fetch]
  cases hx : env[x.index]? with
  | none => exact hzero
  | some y => exact henv y (Array.mem_of_getElem? hx)

theorem isConstant_fetch (henv : ∀ x ∈ env, x.isConstant = true) (x : Slot R) :
    ((Interpretation.recorded home).fetch env x).isConstant = true :=
  fetch_of_forall (P := fun x => x.isConstant = true) rfl henv x

theorem refl (x : Slot R) :
    Recording home env w [] ((Interpretation.recorded home).fetch env x) w where
  tape := (Tape.append_nil _).symm
  live := fun h => fetch_of_forall nofun h x
  constant := fun h => ⟨rfl, isConstant_fetch h x⟩

/-- A step that leaves the tape alone. -/
theorem of_tape_eq (h : Recording home env u ops y w') (hu : u.tape home = w.tape home) :
    Recording home env w ops y w' :=
  ⟨hu ▸ h.tape, hu ▸ h.live, h.constant⟩

theorem of_constant {c : R} (h : Recording home (env.push (Dual.constant c)) w ops y w') :
    Recording home env w ops y w' where
  tape := h.tape
  live := fun henv => h.live (Array.forall_mem_push.2 ⟨nofun, henv⟩)
  constant := fun henv => h.constant (Array.forall_mem_push.2 ⟨rfl, henv⟩)

/-- An elementary operation comes first. -/
theorem cons {a : Primitive R} {t : Tape R} (ha : a.run (w.tape home) = (.ok v, t))
    (hops : (∀ x ∈ env, x.isConstant = true) → ∀ o ∈ a.operands, o.1.isConstant = true)
    (h : Recording home (env.push v) (w.setTape t home) ops y w') :
    Recording home env w (a :: ops) y w' := by
  obtain ⟨ht, hlive, hconst⟩ := Primitive.run_eq_ok ha
  have htape := h.tape
  have hlive' := h.live
  rw [Workspace.tape_setTape] at htape hlive'
  refine ⟨?_, fun henv => ?_, fun henv => ?_⟩
  · rw [htape, ht, Tape.append_append, Primitive.rows_cons]
  · have hold : ∀ x ∈ env, x.Live t := fun x hx => ht ▸ (henv x hx).append _
    exact hlive' (Array.forall_mem_push.2 ⟨hlive, hold⟩)
  · have hoperands := hops henv
    obtain ⟨hrows, hy⟩ := h.constant (Array.forall_mem_push.2 ⟨hconst hoperands, henv⟩)
    refine ⟨?_, hy⟩
    rw [Primitive.rows_cons, hrows, Dual.row, Dual.tracked_of_constant hoperands]
    rfl

end Recording

/-- **What a program records.** -/
theorem Program.recording_run (p : Program R) (hp : p.ScopeFree) {home : Home}
    {env : Array (Dual R)} {w w' : Workspace R} {y : Dual R}
    (h : p.run (.recorded home) env w = (.ok y, w')) :
    Recording home env w (p.primitives home env w) y w' := by
  induction p generalizing env w with
  | result x =>
    obtain ⟨⟨rfl⟩, rfl⟩ := Prod.mk.inj h
    exact .refl x
  | constant c next ih => exact .of_constant (ih _ (hp _) h)
  | unary f x next ih =>
    obtain ⟨v, u, hop, hrest⟩ := Run.bind_eq_ok.1 h
    obtain ⟨t, ha, rfl⟩ := Primitive.recorded_unary_eq_ok hop
    simp only [primitives, Run.onward_of_ok hop]
    refine .cons ha (fun henv => ?_) (ih _ (hp _) hrest)
    simpa [Primitive.operands] using Recording.isConstant_fetch henv x
  | binary f x x' next ih =>
    obtain ⟨v, u, hop, hrest⟩ := Run.bind_eq_ok.1 h
    obtain ⟨t, ha, rfl⟩ := Primitive.recorded_binary_eq_ok hop
    simp only [primitives, Run.onward_of_ok hop]
    refine .cons ha (fun henv => ?_) (ih _ (hp _) hrest)
    simpa [Primitive.operands] using
      And.intro (Recording.isConstant_fetch henv x) (Recording.isConstant_fetch henv x')
  | write text next ih =>
    obtain ⟨taken, u, hop, hrest⟩ := Run.bind_eq_ok.1 h
    simp only [primitives, Run.onward_of_ok hop]
    refine .of_tape_eq (ih _ (hp _) hrest) ?_
    unfold Run.write at hop
    split at hop <;> obtain ⟨-, rfl⟩ := Prod.mk.inj hop <;> cases home <;> rfl
  | active next ih =>
    obtain ⟨kept, u, hop, hrest⟩ := Run.bind_eq_ok.1 h
    simp only [primitives, Run.onward_of_ok hop]
    obtain ⟨-, rfl⟩ := Prod.mk.inj hop
    exact ih _ (hp _) hrest
  | nested => exact hp.elim
  | fail e => cases h
  | halt b => cases h

/-! ## The functions of a part -/

/-- A part of a program opens no scope, and applies functions in order before it hands on what it
delivers. -/
structure Step.Applies {α : Type} (s : Step R α) (fs : List (Unary ⊕ Binary)) : Prop where
  scopeFree : s.ScopeFree
  functions : ∀ {home env w next y w'}, (s next).run (.recorded home) env w = (.ok y, w') →
    ∃ a env' u, (next a).run (.recorded home) env' u = (.ok y, w') ∧
      ((s next).primitives home env w).map Primitive.function =
        fs ++ ((next a).primitives home env' u).map Primitive.function

namespace Step

variable {α β : Type}

theorem Applies.bind {s : Step R α} {f : α → Step R β} {fs gs : List (Unary ⊕ Binary)}
    (hs : s.Applies fs) (hf : ∀ a, (f a).Applies gs) : (s >>= f).Applies (fs ++ gs) where
  scopeFree := hs.scopeFree.bind fun a => (hf a).scopeFree
  functions h := by
    obtain ⟨a, env', u, ha, hfs⟩ := hs.functions h
    obtain ⟨b, env'', v, hb, hgs⟩ := (hf a).functions ha
    exact ⟨b, env'', v, hb, by rw [List.append_assoc, ← hgs, ← hfs]; rfl⟩

theorem applies_pure (a : α) : (pure a : Step R α).Applies [] :=
  ⟨scopeFree_pure a, fun h => ⟨a, _, _, h, rfl⟩⟩

theorem applies_constant (c : R) : (constant c).Applies [] :=
  ⟨scopeFree_constant c, fun h => ⟨_, _, _, h, rfl⟩⟩

/-- A part that stops the program applies whatever is asked for. -/
theorem applies_halt (b : Breach) (fs : List (Unary ⊕ Binary)) :
    (halt b : Step R α).Applies fs :=
  ⟨scopeFree_halt b, fun h => nomatch h⟩

theorem applies_unary (f : Unary) (x : Slot R) : (unary f x).Applies [.inl f] where
  scopeFree := scopeFree_unary f x
  functions h := by
    obtain ⟨v, u, hop, hrest⟩ := Run.bind_eq_ok.1 h
    refine ⟨_, _, u, hrest, ?_⟩
    simp only [unary, Program.primitives, Run.onward_of_ok hop, List.map_cons]
    rfl

theorem applies_binary (f : Binary) (x y : Slot R) : (binary f x y).Applies [.inr f] where
  scopeFree := scopeFree_binary f x y
  functions h := by
    obtain ⟨v, u, hop, hrest⟩ := Run.bind_eq_ok.1 h
    refine ⟨_, _, u, hrest, ?_⟩
    simp only [binary, Program.primitives, Run.onward_of_ok hop, List.map_cons]
    rfl

theorem applies_foldlM {f : β → α → Step R β} {g : Unary ⊕ Binary}
    (hf : ∀ b a, (f b a).Applies [g]) (xs : List α) (b : β) :
    (xs.foldlM f b).Applies (xs.map fun _ => g) := by
  induction xs generalizing b with
  | nil => exact applies_pure b
  | cons x xs ih => exact (hf b x).bind ih

theorem Applies.toProgram {s : Step R (Slot R)} {fs : List (Unary ⊕ Binary)} (hs : s.Applies fs)
    {home : Home} {env : Array (Dual R)} {w w' : Workspace R} {y : Dual R}
    (h : s.toProgram.run (.recorded home) env w = (.ok y, w')) :
    (s.toProgram.primitives home env w).map Primitive.function = fs := by
  obtain ⟨x, env', u, -, hfs⟩ := hs.functions h
  exact hfs.trans (List.append_nil fs)

end Step

end LogDensity
