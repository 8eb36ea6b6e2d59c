import LogDensity.Workspace

/-!
# Differentiating a computation

A computation on dual numbers is differentiated in a scope of a tape: the arguments become fresh
variables, the computation records its steps behind them, and one sweep back to the mark of the
scope gives the gradient. The scope is closed whichever way the computation ends.
-/

namespace LogDensity

variable {R : Type} [Scalar R]

/-- Records one fresh variable per value, in order. -/
def Tape.leaves (t : Tape R) : List R → List (Dual R) × Tape R
  | [] => ([], t)
  | x :: xs =>
    let (v, t) := Dual.leaf t x
    let (vs, t) := leaves t xs
    (v :: vs, t)

namespace Run

/-- Records one fresh variable per value, in order. -/
def leaves (home : Home) (xs : List R) : Run R (List (Dual R)) :=
  onTape home fun t =>
    let (vs, t) := t.leaves xs
    (.ok vs, t)

/-- The derivatives of a number, by a sweep back to `mark`. -/
def gradient (home : Home) (mark : Nat) (out : Dual R) (wrt : List (Dual R)) : Run R (List R) :=
  onTape home fun t => (t.gradient mark out wrt, t)

end Run

/-- The value of a computation on fresh variables in a scope. -/
def valueAt (home : Home) (xs : List R) (density : List (Dual R) → Run R (Dual R)) : Run R R :=
  Run.withScope home fun _ => do
    let vars ← Run.leaves home xs
    let out ← density vars
    pure out.value

/-- Value and gradient of a computation on fresh variables in a scope; `report` is told the mark
once the gradient is known. -/
def gradientAt (home : Home) (xs : List R) (density : List (Dual R) → Run R (Dual R))
    (report : Nat → Run R Unit) : Run R (R × List R) :=
  Run.withScope home fun mark => do
    let vars ← Run.leaves home xs
    let out ← density vars
    let partials ← Run.gradient home mark out vars
    report mark
    pure (out.value, partials)

/-- The first `size` values for a model that needs so many; fewer are a breach. -/
def Run.needed (name : String) (size : Nat) (xs : List R) : Run R (List R) :=
  if xs.length < size then Run.halt (.tooFewParameters name size xs.length)
  else pure (xs.take size)

/-- Value and gradient of the density of a named model at the first `size` values, with an entry in
the journal. -/
def differentiate (home : Home) (name : String) (size : Nat) (xs : List R)
    (density : List (Dual R) → Run R (Dual R)) : Run R (R × List R) := do
  let xs ← Run.needed name size xs
  gradientAt home xs density fun mark => do
    let recorded ← Run.asks fun w => (w.tape home).size - mark
    Run.note .debug
      s!"{name}: gradient over {size} parameters recorded {recorded} arena nodes"

end LogDensity
