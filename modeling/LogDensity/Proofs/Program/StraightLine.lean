import LogDensity.Proofs.Program.Forward
import LogDensity.Proofs.Program.Steps
import Mathlib.Data.Fin.Tuple.Basic

/-!
# Straight-line programs

A straight-line program computes with field operations on numbered variables: it starts with the
parameters, and goes from instruction to instruction without a branch. An instruction computes a
new variable, or assigns to an old one; results may be used any number of times.

`StraightLine.eval` is its meaning over any type with the operations, and has three readings: over
the field it is the value, over rational functions the function that is computed, and over tangents
the value with its derivatives. `StraightLine.density` writes the program as a density.

* `StraightLine.runDensity_eq`: under `forward` the density delivers the meaning over tangents.
-/

namespace LogDensity

/-- The operations that also have an assigning form. -/
inductive Arithmetic
  | add
  | sub
  | mul
  | div
  deriving DecidableEq

/-- What is computed from `n` variables. -/
inductive Instruction (K : Type) (n : Nat)
  | constant (c : K)
  | neg (x : Fin n)
  | recip (x : Fin n)
  | arithmetic (f : Arithmetic) (x y : Fin n)
  | mulAdd (x y z : Fin n)
  | sum (xs : List (Fin n))

/-- A program on `n` variables. -/
inductive StraightLine (K : Type) : Nat → Type
  /-- The value of the program. -/
  | result {n : Nat} (x : Fin n) : StraightLine K n
  /-- Computes the variable with number `n`. -/
  | bind {n : Nat} (i : Instruction K n) (rest : StraightLine K (n + 1)) : StraightLine K n
  /-- Replaces `x` by the result of the operation on `x` and `y`. -/
  | assign {n : Nat} (f : Arithmetic) (x y : Fin n) (rest : StraightLine K n) : StraightLine K n

variable {K : Type} {n : Nat}

/-! ## Meaning -/

section Meaning

variable {A : Type} [Zero A] [Add A] [Sub A] [Mul A] [Div A] [Neg A] [Inv A]

/-- The value of an operation. -/
def Arithmetic.eval : Arithmetic → A → A → A
  | add, x, y => x + y
  | sub, x, y => x - y
  | mul, x, y => x * y
  | div, x, y => x / y

/-- What an instruction computes, given the meaning of constants and of variables. -/
def Instruction.eval (c : K → A) (env : Fin n → A) : Instruction K n → A
  | constant a => c a
  | neg x => -env x
  | recip x => (env x)⁻¹
  | arithmetic f x y => f.eval (env x) (env y)
  | mulAdd x y z => env x * env y + env z
  | sum xs => (xs.map env).foldl (· + ·) 0

/-- What a program computes, given the meaning of constants and of variables. -/
def StraightLine.eval (c : K → A) {n : Nat} : StraightLine K n → (Fin n → A) → A
  | result x, env => env x
  | bind i rest, env => rest.eval c (Fin.snoc env (i.eval c env))
  | assign f x y rest, env => rest.eval c (Function.update env x (f.eval (env x) (env y)))

end Meaning

/-- The variable occurs in the instruction. -/
def Instruction.Uses : Instruction K n → Fin n → Prop
  | constant _, _ => False
  | neg x, k => k = x
  | recip x, k => k = x
  | arithmetic _ x y, k => k = x ∨ k = y
  | mulAdd x y z, k => k = x ∨ k = y ∨ k = z
  | sum xs, k => k ∈ xs

/-- The variable occurs in the program. -/
def StraightLine.Uses {n : Nat} : StraightLine K n → Fin n → Prop
  | result x, k => k = x
  | bind i rest, k => i.Uses k ∨ rest.Uses k.castSucc
  | assign _ x y rest, k => k = x ∨ k = y ∨ rest.Uses k

section Divisors

variable [Field K]

/-- The second operand is not zero if it is a divisor. -/
def Arithmetic.Defined : Arithmetic → K → Prop
  | div, y => y ≠ 0
  | _, _ => True

/-- No divisor of the instruction is zero. -/
def Instruction.Defined (env : Fin n → K) : Instruction K n → Prop
  | recip x => env x ≠ 0
  | arithmetic f _ y => f.Defined (env y)
  | _ => True

/-- No divisor is zero when the program is carried out on the given values. -/
def StraightLine.Defined {n : Nat} : StraightLine K n → (Fin n → K) → Prop
  | result _, _ => True
  | bind i rest, env => i.Defined env ∧ rest.Defined (Fin.snoc env (i.eval id env))
  | assign f x y rest, env =>
    f.Defined (env y) ∧ rest.Defined (Function.update env x (f.eval (env x) (env y)))

end Divisors

/-! ## As a density -/

section Density

variable [Scalar K]

/-- The operation as a step. -/
def Arithmetic.step : Arithmetic → Slot K → Slot K → Step K (Slot K)
  | add => Step.add
  | sub => Step.sub
  | mul => Step.mul
  | div => Step.div

/-- The instruction as a step, given the slots of the variables. -/
def Instruction.step (env : Fin n → Slot K) : Instruction K n → Step K (Slot K)
  | constant c => Step.constant c
  | neg x => Step.neg (env x)
  | recip x => Step.unary .recip (env x)
  | arithmetic f x y => f.step (env x) (env y)
  | mulAdd x y z => Step.mulAdd (env x) (env y) (env z)
  | sum xs => Step.sum (xs.map env)

/-- The steps of a program, given the slots of the variables. -/
def StraightLine.step {n : Nat} : StraightLine K n → (Fin n → Slot K) → Step K (Slot K)
  | result x, env => pure (env x)
  | bind i rest, env => do
    let x ← i.step env
    rest.step (Fin.snoc env x)
  | assign f x y rest, env => do
    let z ← f.step (env x) (env y)
    rest.step (Function.update env x z)

/-- The density that carries out a straight-line program on the first `n` parameters. -/
def StraightLine.density (line : Mode → List Int → StraightLine K n) : Mode → List (Slot K) →
    List Int → Program K :=
  fun mode xs ints =>
    if h : n ≤ xs.length then ((line mode ints).step fun i => xs[i]).toProgram
    else .halt (.indexOutOfRange xs.length xs.length)

end Density

/-! ## No scopes -/

theorem Arithmetic.scopeFree_step (f : Arithmetic) (x y : Slot K) : (f.step x y).ScopeFree := by
  cases f <;> exact Step.scopeFree_binary _ x y

section

variable [Scalar K]

theorem Instruction.scopeFree_step (i : Instruction K n) (env : Fin n → Slot K) :
    (i.step env).ScopeFree := by
  cases i with
  | constant c => exact Step.scopeFree_constant c
  | neg x => exact Step.scopeFree_unary _ _
  | recip x => exact Step.scopeFree_unary _ _
  | arithmetic f x y => exact f.scopeFree_step _ _
  | mulAdd x y z => exact (Step.scopeFree_binary _ _ _).bind fun _ => Step.scopeFree_binary _ _ _
  | sum xs => exact (Step.scopeFree_constant 0).bind fun _ =>
      Step.scopeFree_foldlM (Step.scopeFree_binary .add) _ _

theorem StraightLine.scopeFree_step {n : Nat} (p : StraightLine K n) (env : Fin n → Slot K) :
    (p.step env).ScopeFree := by
  induction p with
  | result x => exact fun _ hnext => hnext _
  | bind i rest ih => exact (i.scopeFree_step env).bind fun _ => ih _
  | assign f x y rest ih => exact (f.scopeFree_step _ _).bind fun _ => ih _

theorem StraightLine.scopeFree_density (line : Mode → List Int → StraightLine K n) (mode : Mode)
    (xs : List (Slot K)) (ints : List Int) : (density line mode xs ints).ScopeFree := by
  unfold density
  split
  · exact (line mode ints).scopeFree_step _ _ fun _ => trivial
  · trivial

end

/-! ## Derivatives -/

namespace Tangent

variable [Scalar K]

instance : Zero (Tangent K) := ⟨constant 0⟩
instance : Add (Tangent K) := ⟨binary .add⟩
instance : Sub (Tangent K) := ⟨binary .sub⟩
instance : Mul (Tangent K) := ⟨binary .mul⟩
instance : Div (Tangent K) := ⟨binary .div⟩
instance : Neg (Tangent K) := ⟨unary .neg⟩
instance : Inv (Tangent K) := ⟨unary .recip⟩

/-- The slot stands for the tangent among the results so far. -/
def Named (env : Array (Tangent K)) (x : Slot K) (t : Tangent K) : Prop :=
  env[x.index]? = some t ∧ x.primal = t.value

end Tangent

namespace Step

variable [Scalar K] {env : Array (Tangent K)}

/-- Carried out under `forward`, the steps deliver a slot of the tangent, and keep the results so
far. -/
def Delivers (s : Step K (Slot K)) (env : Array (Tangent K)) (t : Tangent K) : Prop :=
  ∀ next w, ∃ env' x, (∀ y u, Tangent.Named env y u → Tangent.Named env' y u) ∧
    Tangent.Named env' x t ∧ (s next).run .forward env w = (next x).run .forward env' w

theorem Delivers.bind {s : Step K (Slot K)} {f : Slot K → Step K (Slot K)} {t t' : Tangent K}
    (hs : s.Delivers env t)
    (hf : ∀ env' x, (∀ y u, Tangent.Named env y u → Tangent.Named env' y u) →
      Tangent.Named env' x t → (f x).Delivers env' t') : (s >>= f).Delivers env t' := by
  intro next w
  obtain ⟨env', x, hkeep, hx, hrun⟩ := hs (fun x => f x next) w
  obtain ⟨env'', x', hkeep', hx', hrun'⟩ := hf env' x hkeep hx next w
  exact ⟨env'', x', fun y u h => hkeep' y u (hkeep y u h), hx', hrun.trans hrun'⟩

theorem delivers_pure {x : Slot K} {t : Tangent K} (hx : Tangent.Named env x t) :
    (pure x : Step K (Slot K)).Delivers env t :=
  fun _ _ => ⟨env, x, fun _ _ h => h, hx, rfl⟩

/-- A step that delivers a new result. -/
theorem delivers_push {s : Step K (Slot K)} {t : Tangent K}
    (h : ∀ next w, (s next).run .forward env w =
      (next (Interpretation.forward.slot env t)).run .forward (env.push t) w) :
    s.Delivers env t := by
  refine fun next w => ⟨env.push t, _, fun y u hy => ⟨?_, hy.2⟩, ⟨?_, rfl⟩, h next w⟩
  · rw [Array.getElem?_push, if_neg (by have := (Array.getElem?_eq_some_iff.1 hy.1).1; omega)]
    exact hy.1
  · exact Array.getElem?_push_size

theorem delivers_constant (c : K) : (constant c).Delivers env (.constant c) :=
  delivers_push fun _ _ => rfl

theorem fetch_eq {x : Slot K} {t : Tangent K} (hx : Tangent.Named env x t) :
    Interpretation.forward.fetch env x = t := by
  rw [Interpretation.fetch, hx.1, Option.getD_some]

theorem forward_unary {f : Unary} (hf : f ≠ .powi Int32.minValue) (t : Tangent K) :
    Interpretation.forward.unary f t = pure (Tangent.unary f t) :=
  if_neg hf

theorem delivers_unary {f : Unary} (hf : f ≠ .powi Int32.minValue) {x : Slot K} {t : Tangent K}
    (hx : Tangent.Named env x t) : (unary f x).Delivers env (Tangent.unary f t) :=
  delivers_push fun next w => by
    change (Interpretation.forward.unary f (Interpretation.forward.fetch env x) >>= _) w = _
    rw [fetch_eq hx, forward_unary hf]
    rfl

theorem delivers_binary (f : Binary) {x y : Slot K} {t u : Tangent K}
    (hx : Tangent.Named env x t) (hy : Tangent.Named env y u) :
    (binary f x y).Delivers env (Tangent.binary f t u) :=
  delivers_push fun next w => by
    change (Interpretation.forward.binary f (Interpretation.forward.fetch env x)
      (Interpretation.forward.fetch env y) >>= _) w = _
    rw [fetch_eq hx, fetch_eq hy]
    rfl

theorem delivers_foldlM_add {xs : List (Slot K)} {ts : List (Tangent K)} {x : Slot K}
    {t : Tangent K} (hx : Tangent.Named env x t) (hxs : List.Forall₂ (Tangent.Named env) xs ts) :
    (xs.foldlM add x : Step K (Slot K)).Delivers env (ts.foldl (· + ·) t) := by
  induction xs generalizing env x t ts with
  | nil =>
    cases hxs
    exact delivers_pure hx
  | cons y ys ih =>
    obtain _ | ⟨hy, hys⟩ := hxs
    rw [List.foldl_cons]
    exact (delivers_binary .add hx hy).bind fun env' z hkeep hz =>
      ih hz (hys.imp fun _ _ h => hkeep _ _ h)

end Step

section Delivery

variable [Scalar K] {env : Array (Tangent K)}

theorem Arithmetic.delivers (f : Arithmetic) {x y : Slot K} {t u : Tangent K}
    (hx : Tangent.Named env x t) (hy : Tangent.Named env y u) :
    (f.step x y).Delivers env (f.eval t u) := by
  cases f with
  | add => exact Step.delivers_binary .add hx hy
  | sub => exact Step.delivers_binary .sub hx hy
  | mul => exact Step.delivers_binary .mul hx hy
  | div => exact Step.delivers_binary .div hx hy

theorem Instruction.delivers (i : Instruction K n) {slots : Fin n → Slot K}
    {tangents : Fin n → Tangent K} (h : ∀ k, Tangent.Named env (slots k) (tangents k)) :
    (i.step slots).Delivers env (i.eval Tangent.constant tangents) := by
  cases i with
  | constant c => exact Step.delivers_constant c
  | neg x => exact Step.delivers_unary (by decide) (h x)
  | recip x => exact Step.delivers_unary (by decide) (h x)
  | arithmetic f x y => exact f.delivers (h x) (h y)
  | mulAdd x y z =>
    exact (Step.delivers_binary .mul (h x) (h y)).bind fun _ _ hkeep hw =>
      Step.delivers_binary .add hw (hkeep _ _ (h z))
  | sum xs =>
    refine (Step.delivers_constant 0).bind fun _ _ hkeep hx => Step.delivers_foldlM_add hx ?_
    rw [List.forall₂_map_left_iff, List.forall₂_map_right_iff, List.forall₂_same]
    exact fun k _ => hkeep _ _ (h k)

/-- A program delivers its meaning over tangents. -/
theorem StraightLine.delivers {n : Nat} (p : StraightLine K n) {env : Array (Tangent K)}
    {slots : Fin n → Slot K} {tangents : Fin n → Tangent K}
    (h : ∀ k, Tangent.Named env (slots k) (tangents k)) :
    (p.step slots).Delivers env (p.eval Tangent.constant tangents) := by
  induction p generalizing env with
  | result x => exact Step.delivers_pure (h x)
  | bind i rest ih =>
    refine (i.delivers h).bind fun env' z hkeep hz => ih fun k => ?_
    cases k using Fin.lastCases with
    | last => simpa only [Fin.snoc_last] using hz
    | cast j => simpa only [Fin.snoc_castSucc] using hkeep _ _ (h j)
  | assign f x y rest ih =>
    refine (f.delivers (h x) (h y)).bind fun env' z hkeep hz => ih fun k => ?_
    by_cases hk : k = x
    · subst hk
      simpa only [Function.update_self] using hz
    · simpa only [Function.update_of_ne hk] using hkeep _ _ (h k)

/-- **Under `forward` the density delivers the meaning of the program over tangents.** -/
theorem StraightLine.runDensity_eq (line : Mode → List Int → StraightLine K n) (mode : Mode)
    (ints : List Int) {xs : List K} (hlen : xs.length = n) (w : Workspace K) :
    (runDensity .forward (density line) mode ints (Tangent.params xs) w).1 =
      .ok ((line mode ints).eval Tangent.constant fun k => Tangent.param k xs[k]) := by
  subst hlen
  have hslots : (Interpretation.forward.slots (Tangent.params xs)).length = xs.length := by
    simp [Interpretation.slots, Tangent.params]
  have hnamed (k : Fin xs.length) : Tangent.Named (Tangent.params xs).toArray
      (Interpretation.forward.slots (Tangent.params xs))[k] (Tangent.param k xs[k]) := by
    simp [Tangent.Named, Interpretation.slots, Tangent.params, Interpretation.forward]
  obtain ⟨env, x, -, hx, hrun⟩ := (line mode ints).delivers hnamed .result w
  rw [runDensity, density, dif_pos hslots.ge]
  change (((line mode ints).step _ .result).run _ _ w).1 = _
  refine (congrArg Prod.fst hrun).trans ?_
  rw [Program.run, Step.fetch_eq hx]
  rfl

end Delivery

end LogDensity
