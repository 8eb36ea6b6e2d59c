import LogDensity.Formula.Expr
import LogDensity.Program.Run
import LogDensity.Proofs.Binary64.Order
import LogDensity.Proofs.Binary64.Sign

/-!
# Operations composed of others

Some operations of densities are put together from others: piecewise constant functions, the
positive difference, a magnitude with a sign, and the logarithm to a base. Binary64 numbers have all
of them as functions of their own. Here the steps of a density are compared with these
(`UnaryName.steps_computes`, `BinaryName.steps_computes`, `Step.run_sinCos`): on plain numbers they
compute the same, the sign of not-a-number aside.
-/

namespace LogDensity

/-! ## The functions of the number type -/

namespace Datum

/-- What the first number exceeds the second by, and zero if it does not. -/
def positiveDifference (a b : Datum) : Datum :=
  if a.isNaN then a else if b.isNaN then b else if Elementary.less b a then a - b else 0

/-- The magnitude of a number with the sign of another one. -/
def copysign (a s : Datum) : Datum :=
  if s.isNegative then -a.abs else a.abs

/-- A difference unless the first number is at most the second one. -/
theorem value_positiveDifference (a b : Datum) :
    (if Elementary.atMost a b then 0 else a - b : Datum).value =
      (a.positiveDifference b).value := by
  have hatMost : Elementary.atMost a b = decide (a.value ≤ b.value) := rfl
  have hless : Elementary.less b a = decide (b.value < a.value) := rfl
  have hsub : (a - b).value = a.value - b.value := rfl
  rw [positiveDifference, hatMost, hless]
  cases ha : a.isNaN with
  | true =>
    have hnot : ¬ a.value ≤ b.value := Binary64.not_le_of_isNaN (.inl ha)
    rw [decide_eq_false hnot, if_neg Bool.false_ne_true, if_pos rfl, hsub]
    exact Binary64.eq_of_isNaN (Binary64.isNaN_sub (.inl ha)) ha
  | false =>
    cases hb : b.isNaN with
    | true =>
      have hnot : ¬ a.value ≤ b.value := Binary64.not_le_of_isNaN (.inr hb)
      rw [decide_eq_false hnot, if_neg Bool.false_ne_true, if_neg Bool.false_ne_true, if_pos rfl,
        hsub]
      exact Binary64.eq_of_isNaN (Binary64.isNaN_sub (.inr hb)) hb
    | false =>
      by_cases hlt : b.value < a.value
      · rw [decide_eq_true hlt, decide_eq_false (Binary64.not_le_of_lt hlt)]
        rfl
      · rw [decide_eq_false hlt, decide_eq_true (Binary64.le_of_not_lt ha hb hlt)]
        rfl

/-- The number itself or its negation. -/
theorem value_copysign (a s : Datum) :
    (if Elementary.isNegative a == Elementary.isNegative s then a else -a).value =
      (a.copysign s).value := by
  have hneg : (-a).value = -a.value := rfl
  change (if a.isNegative == s.isNegative then a else -a).value =
    (if s.isNegative then -a.abs else a.abs).value
  cases ha : a.isNaN with
  | true =>
    have hleft : (if a.isNegative == s.isNegative then a else -a).value.isNaN = true := by
      split
      · exact ha
      · exact Binary64.isNaN_neg ha
    have hright : (if s.isNegative then -a.abs else a.abs).value.isNaN = true := by
      split
      · exact Binary64.isNaN_neg (Binary64.isNaN_abs ha)
      · exact Binary64.isNaN_abs ha
    exact Binary64.eq_of_isNaN hleft hright
  | false =>
    have hnumber : a.nanNegative = false := by
      cases h : a.nanNegative with
      | true => exact absurd (a.isNaN_of_nanNegative h) (Bool.eq_false_iff.1 ha)
      | false => rfl
    have hsign : a.isNegative = Binary64.isNegative a.value := by
      rw [isNegative, hnumber, Bool.false_or]
    have hmagnitude := Binary64.abs_eq ha
    rw [hsign]
    -- one case per sign of either number
    cases ha' : Binary64.isNegative a.value <;> cases s.isNegative <;> rw [ha'] at hmagnitude
    · exact hmagnitude.symm
    · exact hneg.trans (congrArg _ hmagnitude.symm)
    · exact hmagnitude.symm
    · exact (Binary64.neg_involutive ha).symm.trans (congrArg _ hmagnitude.symm)

end Datum

/-! ## Steps on plain numbers -/

namespace Step

/-- A slot that names a result among those so far. -/
def Named (env : Array Datum) (x : Slot Datum) : Prop :=
  env[x.index]? = some x.primal

/-- Steps compute a number if they hand on a slot that names it, the sign of not-a-number aside, to
whatever comes next. -/
def Computes (s : Step Datum (Slot Datum)) (env : Array Datum) (c : Datum) : Prop :=
  ∃ x env', (∀ next, (s next).run .plain env = (next x).run .plain env') ∧
    env.toList <+: env'.toList ∧ Named env' x ∧ x.primal.value = c.value

variable {env : Array Datum} {x y : Slot Datum}

theorem Named.fetch_eq (h : Named env x) : Interpretation.plain.fetch env x = x.primal := by
  rw [Interpretation.fetch, h]
  rfl

theorem Named.push (h : Named env x) (c : Datum) : Named (env.push c) x := by
  rw [Named, Array.getElem?_push, if_neg]
  · exact h
  · exact Nat.ne_of_lt (Array.getElem?_eq_some_iff.1 h).1

theorem named_push (env : Array Datum) (c : Datum) : Named (env.push c) ⟨env.size, c⟩ :=
  Array.getElem?_push_size

theorem computes_pure (h : Named env x) {c : Datum} (hc : x.primal.value = c.value) :
    (pure x : Step Datum (Slot Datum)).Computes env c :=
  ⟨x, env, fun _ => rfl, List.prefix_rfl, h, hc⟩

theorem computes_push {s : Step Datum (Slot Datum)} {c d : Datum} (hd : d.value = c.value)
    (h : ∀ next, (s next).run .plain env = (next ⟨env.size, d⟩).run .plain (env.push d)) :
    s.Computes env c :=
  ⟨_, _, h, by rw [Array.toList_push]; exact List.prefix_append _ _, named_push env d, hd⟩

theorem run_constant (c : Datum) (next : Slot Datum → Program Datum) :
    (constant c next).run .plain env = (next ⟨env.size, c⟩).run .plain (env.push c) :=
  rfl

theorem run_unary (f : Unary) (hx : Named env x) (next : Slot Datum → Program Datum) :
    (unary f x next).run .plain env =
      (next ⟨env.size, f.value x.primal⟩).run .plain (env.push (f.value x.primal)) := by
  rw [← hx.fetch_eq]
  rfl

theorem run_binary (f : Binary) (hx : Named env x) (hy : Named env y)
    (next : Slot Datum → Program Datum) :
    (binary f x y next).run .plain env =
      (next ⟨env.size, f.value x.primal y.primal⟩).run .plain
        (env.push (f.value x.primal y.primal)) := by
  rw [← hx.fetch_eq, ← hy.fetch_eq]
  rfl

/-- Sine and cosine are handed on as a pair. -/
theorem run_sinCos (hx : Named env x) (next : Slot Datum × Slot Datum → Program Datum) :
    (sinCos x next).run .plain env =
      (next (⟨env.size, Elementary.sin x.primal⟩, ⟨env.size + 1, Elementary.cos x.primal⟩)).run
        .plain ((env.push (Elementary.sin x.primal)).push (Elementary.cos x.primal)) := by
  have hsin := run_unary .sin hx fun s => unary .cos x fun c => next (s, c)
  have hcos := run_unary .cos (hx.push (Elementary.sin x.primal)) fun c =>
    next (⟨env.size, Elementary.sin x.primal⟩, c)
  rw [Array.size_push] at hcos
  exact hsin.trans hcos

end Step

/-- A function of one argument as the number type has it; angles in degrees are left out, which are
converted by a factor there. -/
def UnaryName.ofNumber? : UnaryName → Option (Datum → Datum)
  | function f => some f.value
  | floor => some Elementary.floor
  | ceil => some Elementary.ceil
  | round => some Elementary.round
  | trunc => some Elementary.trunc
  | signum => some Elementary.signum
  | toDegrees => none
  | toRadians => none

/-- A function of two arguments as the number type has it; the larger and the smaller of two numbers
are left out, which may differ in the sign of zero. -/
def BinaryName.ofNumber? : BinaryName → Option (Datum → Datum → Datum)
  | function f => some f.value
  | maximum => none
  | minimum => none
  | positiveDifference => some Datum.positiveDifference
  | copysign => some Datum.copysign
  | logBase => some fun x base => Elementary.ln x / Elementary.ln base

section

variable {env : Array Datum} {x y : Slot Datum}

/-- **The functions of one argument compute what the number type has.** -/
theorem UnaryName.steps_computes (f : UnaryName) {g : Datum → Datum} (hg : f.ofNumber? = some g)
    (hx : Step.Named env x) : (f.steps x).Computes env (g x.primal) := by
  cases f with
  | function f =>
    obtain rfl := Option.some.inj hg
    exact Step.computes_push rfl (Step.run_unary f hx)
  | toDegrees => cases hg
  | toRadians => cases hg
  | floor | ceil | round | trunc | signum =>
    obtain rfl := Option.some.inj hg
    exact Step.computes_push rfl (Step.run_constant _)

/-- **The functions of two arguments compute what the number type has.** -/
theorem BinaryName.steps_computes (f : BinaryName) {g : Datum → Datum → Datum}
    (hg : f.ofNumber? = some g) (hx : Step.Named env x) (hy : Step.Named env y) :
    (f.steps x y).Computes env (g x.primal y.primal) := by
  cases f with
  | function f =>
    obtain rfl := Option.some.inj hg
    exact Step.computes_push rfl (Step.run_binary f hx hy)
  | maximum => cases hg
  | minimum => cases hg
  | positiveDifference =>
    obtain rfl := Option.some.inj hg
    have hvalue := Datum.value_positiveDifference x.primal y.primal
    simp only [steps, Step.positiveDifference]
    split
    · rename_i hle
      rw [if_pos hle] at hvalue
      exact Step.computes_push hvalue (Step.run_constant 0)
    · rename_i hgt
      rw [if_neg hgt] at hvalue
      exact Step.computes_push hvalue (Step.run_binary .sub hx hy)
  | copysign =>
    obtain rfl := Option.some.inj hg
    have hvalue := Datum.value_copysign x.primal y.primal
    simp only [steps, Step.copysign]
    split
    · rename_i hsame
      rw [if_pos hsame] at hvalue
      exact Step.computes_pure hx hvalue
    · rename_i hother
      rw [if_neg hother] at hvalue
      exact Step.computes_push hvalue (Step.run_unary .neg hx)
  | logBase =>
    obtain rfl := Option.some.inj hg
    let a := Elementary.ln x.primal
    let b := Elementary.ln y.primal
    have ha : Step.Named ((env.push a).push b) ⟨env.size, a⟩ := (Step.named_push env a).push b
    have hb : Step.Named ((env.push a).push b) ⟨(env.push a).size, b⟩ := Step.named_push _ b
    refine ⟨_, _, fun next => ?_, ?_, Step.named_push ((env.push a).push b) (a / b), rfl⟩
    · exact (Step.run_unary .ln hx _).trans ((Step.run_unary .ln (hy.push a) _).trans
        (Step.run_binary .div ha hb next))
    · simp only [Array.toList_push, List.append_assoc]
      exact List.prefix_append _ _

end

end LogDensity
