import LogDensity.Evaluation.FiniteDifference
import LogDensity.Proofs.Evaluation.Workspace

/-!
# Parameters that are moved in place

Central differences move the parameters in one list, and hand it on from each parameter to the next.
Each of them is put back before the next one is moved (`Model.quotientInPlace_eq`), so that the list
is the given one whenever a parameter is begun. Hence the density is evaluated at the given
parameters with one of them moved.

* `Model.finiteDifference_eq`: central differences evaluate each parameter by itself
  (`Model.quotientAt`), away from the given parameters in this one only.
-/

namespace LogDensity

variable {R : Type}

namespace Model

variable [Scalar R] (m : Model R) (interrupt : Nat → Bool) (params : List R) (ints : List Int)
  (mode : Mode) (epsilon : R)

/-- The difference quotient of one parameter. -/
def quotient (x : R) (k : Nat) : Run R R := do
  let plus ← m.logProb (params.set k (x + epsilon)) ints mode
  let minus ← m.logProb (params.set k (x - epsilon)) ints mode
  pure ((plus - minus) / (((2 : Int) : R) * epsilon))

/-- The difference quotient of one parameter, unless the interrupt asks to stop. -/
def quotientAt (x : R) (k : Nat) : Run R R := do
  if ← Run.poll interrupt then Run.fail .interrupted
  else m.quotient params ints mode epsilon x k

variable {params} {x : R} {k : Nat}

/-- **A parameter is put back.** The list that is handed on is the one that was given. -/
theorem quotientInPlace_eq (hx : params[k]? = some x) :
    m.quotientInPlace ints mode epsilon x k params =
      (m.quotient params ints mode epsilon x k >>= fun q => pure (q, params)) := by
  have hback : params.set k x = params := by
    obtain ⟨hk, rfl⟩ := List.getElem?_eq_some_iff.1 hx
    exact List.set_getElem_self hk
  simp [quotientInPlace, quotient, List.set_set, hback]

/-- Quotients for some of the parameters, each by itself. -/
theorem quotientsInPlace_eq {xs : List (R × Nat)} (hxs : ∀ p ∈ xs, params[p.2]? = some p.1) :
    m.quotientsInPlace interrupt ints mode epsilon xs params =
      xs.mapM fun (x, k) => m.quotientAt interrupt params ints mode epsilon x k := by
  -- the list that is handed on is the same before every parameter
  induction xs with
  | nil => rfl
  | cons p rest ih =>
    obtain ⟨x, k⟩ := p
    obtain ⟨hx, hrest⟩ := List.forall_mem_cons.1 hxs
    simp only [List.mapM_cons, quotientsInPlace, quotientAt,
      m.quotientInPlace_eq ints mode epsilon hx, bind_assoc, pure_bind]
    refine bind_congr fun stop => ?_
    cases stop with
    | true => rfl
    | false => simp [ih hrest, quotientAt]

/-- Central differences evaluate each parameter by itself. -/
theorem finiteDifference_eq (params : List R) :
    m.finiteDifference interrupt params ints mode epsilon =
      (params.take m.size).zipIdx.mapM fun (x, k) =>
        m.quotientAt interrupt params ints mode epsilon x k := by
  refine m.quotientsInPlace_eq interrupt ints mode epsilon fun p hp => ?_
  have htake := List.mem_zipIdx_iff_getElem?.1 hp
  rw [List.getElem?_take] at htake
  exact (Option.ite_none_right_eq_some.1 htake).2

end Model

end LogDensity
