import LogDensity.Calculator.Basic
import LogDensity.Proofs.Program.Primitives

/-!
# What a computation records

A computation with dual numbers is a `Dialogue` with a calculator: each command is chosen by the
replies to the earlier ones, so that the computation may branch on whatever it sees of its numbers.
The commands compute or look: they open and close no scope and make no variables. An operation
that assigns to its operand is the operation itself, its result taking the place of the operand.

`Operation.functions` is the table of the functions that each operation applies. Piecewise constant
functions and selections apply none.

* `Dialogue.records_run`: a computation appends one node for each elementary operation whose
  operands are not all constant, and nothing else; among constants it leaves no trace.
-/

namespace LogDensity

/-! ## The table of functions -/

/-- The functions that a function of one argument applies. -/
def UnaryName.functions : UnaryName → List (Unary ⊕ Binary)
  | function f => [.inl f]
  | floor | ceil | round | trunc | signum => []
  | toDegrees | toRadians => [.inl .acos, .inr .mul, .inr .div]

/-- The functions that a function of two arguments applies, which may depend on their values. -/
def BinaryName.functions {R : Type} [Scalar R] (x y : R) : BinaryName → List (Unary ⊕ Binary)
  | function f => [.inr f]
  | maximum | minimum => []
  | positiveDifference => if Elementary.atMost x y then [] else [.inr .sub]
  | copysign => if Elementary.isNegative x == Elementary.isNegative y then [] else [.inl .neg]
  | logBase => [.inl .ln, .inl .ln, .inr .div]

namespace Step

variable {R : Type} [Scalar R]

theorem applies_unaryName (f : UnaryName) (x : Slot R) : (f.steps x).Applies f.functions := by
  have hquarter : (quarterTurn : Step R (Slot R)).Applies [.inl .acos] :=
    (applies_constant 0).bind fun zero => applies_unary .acos zero
  cases f with
  | function f => exact applies_unary f x
  | floor | ceil | round | trunc | signum => exact applies_constant _
  | toDegrees =>
    exact hquarter.bind fun quarter => (applies_constant _).bind fun ninety =>
      (applies_binary .mul x ninety).bind fun product => applies_binary .div product quarter
  | toRadians =>
    exact hquarter.bind fun quarter => (applies_constant _).bind fun ninety =>
      (applies_binary .mul x quarter).bind fun product => applies_binary .div product ninety

theorem applies_binaryName (f : BinaryName) (x y : Slot R) :
    (f.steps x y).Applies (f.functions x.primal y.primal) := by
  cases f with
  | function f => exact applies_binary f x y
  | maximum | minimum => exact applies_pure _
  | positiveDifference =>
    simp only [BinaryName.steps, BinaryName.functions, positiveDifference]
    split
    · exact applies_constant 0
    · exact applies_binary .sub x y
  | copysign =>
    simp only [BinaryName.steps, BinaryName.functions, copysign]
    split
    · exact applies_pure x
    · exact applies_unary .neg x
  | logBase =>
    exact (applies_unary .ln x).bind fun a => (applies_unary .ln y).bind fun b =>
      applies_binary .div a b

theorem applies_clamp (x low high : Slot R) : (clamp x low high).Applies [] := by
  unfold clamp
  split
  · exact applies_halt _ _
  · split
    · exact applies_pure low
    · split
      · exact applies_pure high
      · exact applies_pure x

end Step

/-- The functions that an operation applies, which may depend on the values in registers. -/
def Operation.functions (c : Calculator) : Operation → List (Unary ⊕ Binary)
  | unary f _ => f.functions
  | binary f a b => f.functions (c.register a).value (c.register b).value
  | mulAdd .. => [.inr .mul, .inr .add]
  | clamp .. => []
  | sum terms => terms.map fun _ => .inr .add

theorem Calculator.applies_steps (c : Calculator) (op : Operation) :
    (c.steps op).Applies (op.functions c) := by
  cases op with
  | unary f a => exact Step.applies_unaryName f (c.slot a)
  | binary f a b => exact Step.applies_binaryName f (c.slot a) (c.slot b)
  | mulAdd x y z =>
    exact (Step.applies_binary .mul _ _).bind fun product => Step.applies_binary .add product _
  | clamp a low high => exact Step.applies_clamp _ _ _
  | sum terms =>
    have hsum : (Step.sum (terms.map c.slot)).Applies ((terms.map c.slot).map fun _ => .inr .add) :=
      (Step.applies_constant 0).bind
        (Step.applies_foldlM (fun x y => Step.applies_binary .add x y) (terms.map c.slot))
    rwa [List.map_map] at hsum

/-! ## Dialogues -/

namespace Command

/-- A command computes or looks. -/
def Computes : Command → Prop
  | openScope | closeScope _ | leaves _ => False
  | _ => True

/-- The elementary operations of a command, with their operands, in order. -/
def primitives (c : Calculator) : Command → List (Primitive Datum)
  | compute op => (c.steps op).toProgram.primitives .own c.registers c.workspace
  | sinCos a => [.unary .sin (c.register a), .unary .cos (c.register a)]
  | _ => []

/-- The functions that a command applies, as the table has them. -/
def functions (c : Calculator) : Command → List (Unary ⊕ Binary)
  | compute op => op.functions c
  | sinCos _ => [.inl .sin, .inl .cos]
  | _ => []

end Command

/-- A sequence of commands, each chosen by the replies to the earlier ones. -/
inductive Dialogue
  | done
  | ask (command : Command) (next : Reply → Dialogue)

namespace Dialogue

/-- All commands compute or look. -/
def Computes : Dialogue → Prop
  | done => True
  | ask command next => command.Computes ∧ ∀ r, (next r).Computes

/-- Carries out a dialogue with a calculator, up to a command that is stopped. -/
def run (c : Calculator) : Dialogue → Except Stop Calculator
  | done => .ok c
  | ask command next =>
    match c.execute command with
    | (.stopped s, _) => .error s
    | (r, c) => (next r).run c

/-- The elementary operations that are carried out, with their operands, in order. -/
def primitives (c : Calculator) : Dialogue → List (Primitive Datum)
  | done => []
  | ask command next =>
    let (r, c') := c.execute command
    command.primitives c ++ (next r).primitives c'

/-- The functions that are applied, as the table has them. -/
def functions (c : Calculator) : Dialogue → List (Unary ⊕ Binary)
  | done => []
  | ask command next =>
    let (r, c') := c.execute command
    command.functions c ++ (next r).functions c'

end Dialogue

/-! ## Single commands -/

namespace Calculator

/-- From one state to another the elementary operations `ops` were carried out. -/
structure Records (c c' : Calculator) (ops : List (Primitive Datum)) : Prop where
  tape : c'.tape = c.tape.append (Primitive.rows ops)
  live : (∀ x ∈ c.registers, x.Live c.tape) → ∀ x ∈ c'.registers, x.Live c'.tape
  constant : (∀ x ∈ c.registers, x.isConstant = true) →
    Primitive.rows ops = [] ∧ ∀ x ∈ c'.registers, x.isConstant = true

/-- From one state to another the elementary operations `ops` were carried out and gave the numbers
`xs`, which are not in registers yet. -/
structure Delivers (c c' : Calculator) (ops : List (Primitive Datum)) (xs : List (Dual Datum)) :
    Prop where
  registers : c'.registers = c.registers
  tape : c'.tape = c.tape.append (Primitive.rows ops)
  live : (∀ x ∈ c.registers, x.Live c.tape) → ∀ x ∈ xs, x.Live c'.tape
  constant : (∀ x ∈ c.registers, x.isConstant = true) →
    Primitive.rows ops = [] ∧ ∀ x ∈ xs, x.isConstant = true

variable {c c' c'' : Calculator} {ops ops' : List (Primitive Datum)} {xs : List (Dual Datum)}

theorem Records.refl (c : Calculator) : c.Records c [] :=
  ⟨(Tape.append_nil _).symm, id, fun h => ⟨rfl, h⟩⟩

theorem Records.trans (h : c.Records c' ops) (h' : c'.Records c'' ops') :
    c.Records c'' (ops ++ ops') where
  tape := by rw [h'.tape, h.tape, Tape.append_append, Primitive.rows_append]
  live := h'.live ∘ h.live
  constant hc := by
    obtain ⟨hrows, hregisters⟩ := h.constant hc
    obtain ⟨hrows', hregisters'⟩ := h'.constant hregisters
    exact ⟨by rw [Primitive.rows_append, hrows, hrows', List.append_nil], hregisters'⟩

theorem forall_mem_fill {P : Dual Datum → Prop} :
    (∀ x ∈ (c.fill xs).registers, P x) ↔ (∀ x ∈ c.registers, P x) ∧ ∀ x ∈ xs, P x := by
  simp [fill, ← Array.mem_toList_iff, or_imp, forall_and]

theorem delivers_constant (c : Calculator) (x : Datum) :
    c.Delivers c [] [Dual.constant x] where
  registers := rfl
  tape := (Tape.append_nil _).symm
  live _ := List.forall_mem_singleton.2 nofun
  constant _ := ⟨rfl, List.forall_mem_singleton.2 rfl⟩

theorem delivers_nil (c : Calculator) : c.Delivers c [] [] :=
  ⟨rfl, (Tape.append_nil _).symm, fun _ => List.forall_mem_nil _,
    fun _ => ⟨rfl, List.forall_mem_nil _⟩⟩

/-- One more computation. -/
theorem Delivers.run (h : c.Delivers c' ops xs) {s : Step Datum (Slot Datum)}
    {fs : List (Unary ⊕ Binary)} (hs : s.Applies fs) {x : Dual Datum}
    (hrun : c'.run s = (.ok x, c'')) :
    let added := s.toProgram.primitives .own c.registers c'.workspace
    c.Delivers c'' (ops ++ added) (xs ++ [x]) ∧ added.map Primitive.function = fs := by
  intro added
  obtain ⟨w, hprogram, rfl⟩ :
      ∃ w, s.toProgram.run (.recorded .own) c.registers c'.workspace = (.ok x, w) ∧
        c'' = { c' with workspace := w } := by
    obtain ⟨houtcome, rfl⟩ := Prod.mk.inj hrun
    rw [h.registers] at houtcome ⊢
    exact ⟨_, Prod.ext houtcome rfl, rfl⟩
  obtain ⟨htape, hlive, hconst⟩ := s.toProgram.recording_run hs.scopeFree.toProgram hprogram
  change w.own = c'.tape.append (Primitive.rows added) at htape
  refine ⟨⟨h.registers, ?_, fun hc => ?_, fun hc => ?_⟩, hs.toProgram hprogram⟩
  · rw [Primitive.rows_append, ← Tape.append_append, ← h.tape]
    exact htape
  · have hregisters : ∀ y ∈ c.registers, y.Live c'.tape := fun y hy => h.tape ▸ (hc y hy).append _
    have hxs : ∀ y ∈ xs, y.Live w.own := fun y hy => htape ▸ (h.live hc y hy).append _
    exact List.forall_mem_append.2 ⟨hxs, List.forall_mem_singleton.2 (hlive hregisters)⟩
  · obtain ⟨hrows, hxs⟩ := h.constant hc
    obtain ⟨hrows', hx⟩ := hconst hc
    refine ⟨by rw [Primitive.rows_append, hrows, hrows', List.append_nil], ?_⟩
    exact List.forall_mem_append.2 ⟨hxs, List.forall_mem_singleton.2 hx⟩

/-- The numbers are put into registers. -/
theorem Delivers.fill (h : c.Delivers c' ops xs) : c.Records (c'.fill xs) ops where
  tape := h.tape
  live hc := forall_mem_fill.2
    ⟨fun x hx => h.tape ▸ (hc x (h.registers ▸ hx)).append _, h.live hc⟩
  constant hc := by
    obtain ⟨hrows, hxs⟩ := h.constant hc
    exact ⟨hrows, forall_mem_fill.2 ⟨fun x hx => hc x (h.registers ▸ hx), hxs⟩⟩

theorem primitives_unary (f : Unary) (x : Slot Datum) (w : Workspace Datum) :
    (Step.unary f x).toProgram.primitives .own c.registers w =
      [.unary f ((Interpretation.recorded .own).fetch c.registers x)] := by
  change _ :: Run.onward _ (fun _ _ => []) w = _
  unfold Run.onward
  split <;> rfl

/-- **What a command records.** -/
theorem execute_records {command : Command} (hc : command.Computes) {r : Reply}
    (h : c.execute command = (r, c')) (hr : ∀ s, r ≠ .stopped s) :
    c.Records c' (command.primitives c) ∧
      (command.primitives c).map Primitive.function = command.functions c := by
  cases command with
  | openScope | closeScope | leaves => exact hc.elim
  | constant x =>
    obtain ⟨-, rfl⟩ := Prod.mk.inj h
    exact ⟨(delivers_constant c x).fill, rfl⟩
  | compute op =>
    simp only [execute] at h
    split at h
    · next x c₁ hrun =>
      obtain ⟨hx, hfs⟩ := (delivers_nil c).run (c.applies_steps op) hrun
      obtain ⟨-, rfl⟩ := Prod.mk.inj h
      exact ⟨hx.fill, hfs⟩
    · exact absurd (Prod.mk.inj h).1.symm (hr _)
  | sinCos a =>
    simp only [execute] at h
    split at h
    · exact absurd (Prod.mk.inj h).1.symm (hr _)
    · next x c₁ hsin =>
      split at h
      · exact absurd (Prod.mk.inj h).1.symm (hr _)
      · next y c₂ hcos =>
        obtain ⟨-, rfl⟩ := Prod.mk.inj h
        obtain ⟨hx, -⟩ := (delivers_nil c).run (Step.applies_unary .sin (c.slot a)) hsin
        obtain ⟨hy, -⟩ := hx.run (Step.applies_unary .cos (c.slot a)) hcos
        rw [primitives_unary, primitives_unary] at hy
        exact ⟨hy.fill, rfl⟩
  | read radix text =>
    simp only [execute] at h
    split at h
    · next x hx =>
      obtain ⟨-, rfl⟩ := Prod.mk.inj h
      exact ⟨(delivers_constant c x).fill, rfl⟩
    · obtain ⟨-, rfl⟩ := Prod.mk.inj h
      exact ⟨.refl c, rfl⟩
  | cast t text =>
    simp only [execute] at h
    split at h
    · next x hx =>
      obtain ⟨-, rfl⟩ := Prod.mk.inj h
      exact ⟨(delivers_constant c x).fill, rfl⟩
    · obtain ⟨-, rfl⟩ := Prod.mk.inj h
      exact ⟨.refl c, rfl⟩
  | gradient scope out wrt =>
    simp only [execute] at h
    split at h <;> obtain ⟨-, rfl⟩ := Prod.mk.inj h <;> exact ⟨.refl c, rfl⟩
  | compare | inspect | integers | format | describe | size =>
    obtain ⟨-, rfl⟩ := Prod.mk.inj h
    exact ⟨.refl c, rfl⟩

end Calculator

/-! ## Whole computations -/

namespace Dialogue

theorem run_ask {command : Command} {next : Reply → Dialogue} {c c' : Calculator}
    (h : (ask command next).run c = .ok c') :
    (∀ s, (c.execute command).1 ≠ .stopped s) ∧
      (next (c.execute command).1).run (c.execute command).2 = .ok c' := by
  simp only [run] at h
  split at h
  · cases h
  · next r c₁ hr heq =>
    rw [heq]
    exact ⟨fun s hs => hr s hs, h⟩

theorem records_primitives {d : Dialogue} (hd : d.Computes) {c c' : Calculator}
    (h : d.run c = .ok c') :
    c.Records c' (d.primitives c) ∧ (d.primitives c).map Primitive.function = d.functions c := by
  induction d generalizing c with
  | done =>
    obtain rfl := Except.ok.inj h
    exact ⟨.refl c, rfl⟩
  | ask command next ih =>
    obtain ⟨hr, hrest⟩ := run_ask h
    obtain ⟨hfirst, hfs⟩ := Calculator.execute_records hd.1 rfl hr
    obtain ⟨hlater, hgs⟩ := ih _ (hd.2 _) hrest
    exact ⟨hfirst.trans hlater, by rw [primitives, functions, List.map_append, hfs, hgs]⟩

/-- **What a computation records.** A computation that is not stopped appends to the tape, and keeps
what was there. For each of the elementary operations that it carries out, in order, there is one
node if the operands are not all constant, which holds those that are not, in order; and there is
no other node. The elementary operations are those of the table: where it has none, as for piecewise
constant functions and selections, the tape stays the same. If all numbers are live at first, all
results are. If all are constant, the tape stays the same, with its next serial number, and all
results are constant. -/
theorem records_run {d : Dialogue} (hd : d.Computes) {c c' : Calculator} (h : d.run c = .ok c') :
    c.tape.nodes.toList <+: c'.tape.nodes.toList ∧
      c'.tape = c.tape.append (((d.primitives c).map fun a => Dual.tracked a.operands).filter
        fun row => !row.isEmpty) ∧
      (d.primitives c).map Primitive.function = d.functions c ∧
      (d.functions c = [] → c'.tape = c.tape) ∧
      ((∀ x ∈ c.registers, x.Live c.tape) → ∀ x ∈ c'.registers, x.Live c'.tape) ∧
      ((∀ x ∈ c.registers, x.isConstant = true) →
        c'.tape = c.tape ∧ ∀ x ∈ c'.registers, x.isConstant = true) := by
  obtain ⟨⟨htape, hlive, hconst⟩, hfunctions⟩ := records_primitives hd h
  refine ⟨?_, htape, hfunctions, fun hnone => ?_, hlive, fun hc => ?_⟩
  · rw [htape, Tape.append, Array.toList_append]
    exact List.prefix_append _ _
  · rw [hnone, List.map_eq_nil_iff] at hfunctions
    rw [htape, hfunctions]
    exact Tape.append_nil _
  · obtain ⟨hrows, hregisters⟩ := hconst hc
    rw [hrows, Tape.append_nil] at htape
    exact ⟨htape, hregisters⟩

/-- A product and a sum, and then the logarithm of a large result to a base, or the whole part of a
small one. -/
def branching : Dialogue :=
  .ask (.compute (.mulAdd 0 1 0)) fun
    | .register view =>
      if Elementary.less (1 + 1) view.value then
        .ask (.compute (.binary .logBase 2 1)) fun _ =>
          .ask (.compute (.clamp 0 1 2)) fun _ => .done
      else .ask (.compute (.unary .floor 2)) fun _ => .done
    | _ => .done

theorem computes_branching : branching.Computes := by
  refine ⟨trivial, fun r => ?_⟩
  cases r with
  | register view =>
    simp only
    split
    · exact ⟨trivial, fun _ => ⟨trivial, fun _ => trivial⟩⟩
    · exact ⟨trivial, fun _ => trivial⟩
  | _ => trivial

/-- A variable and a constant, and then two constants. The logarithm of the constant has no node,
and the quotient holds one operand. -/
theorem records_run_branching :
    let c := (({} : Calculator).executeAll [.openScope, .leaves [1 + 1], .constant 1]).2
    let k := (({} : Calculator).executeAll [.constant (1 + 1), .constant 1]).2
    let rows := ((branching.primitives c).map fun a => Dual.tracked a.operands).filter
      fun row => !row.isEmpty
    branching.Computes ∧
      branching.functions c = [.inr .mul, .inr .add, .inl .ln, .inl .ln, .inr .div] ∧
      rows.map (List.map Prod.fst) = [[⟨0, 0⟩], [⟨1, 1⟩, ⟨0, 0⟩], [⟨2, 2⟩], [⟨3, 3⟩]] ∧
      (∀ x ∈ c.registers, x.Live c.tape) ∧ (∀ x ∈ k.registers, x.isConstant = true) ∧
      (∃ c', branching.run c = .ok c' ∧ c'.tape = c.tape.append rows ∧
        ∀ x ∈ c'.registers, x.Live c'.tape) ∧
      ∃ k', branching.run k = .ok k' ∧ k'.tape = k.tape ∧
        ∀ x ∈ k'.registers, x.isConstant = true := by
  intro c k rows
  have hc : ∀ x ∈ c.registers, x.Live c.tape := by decide
  have hk : ∀ x ∈ k.registers, x.isConstant = true := by decide
  have exists_ok {outcome : Except Stop Calculator} (h : outcome.isOk = true) :
      ∃ c', outcome = .ok c' := by
    cases outcome with
    | ok c' => exact ⟨c', rfl⟩
    | error s => cases h
  obtain ⟨c', hrun⟩ : ∃ c', branching.run c = .ok c' := exists_ok (by decide +kernel)
  obtain ⟨k', hrun'⟩ : ∃ k', branching.run k = .ok k' := exists_ok (by decide +kernel)
  obtain ⟨-, htape, -, -, hlive, -⟩ := records_run computes_branching hrun
  obtain ⟨-, -, -, -, -, hconst⟩ := records_run computes_branching hrun'
  exact ⟨computes_branching, by decide +kernel, by decide +kernel, hc, hk,
    ⟨c', hrun, htape, hlive hc⟩, k', hrun', hconst hk⟩

end Dialogue

end LogDensity
