import LogDensity.Formula.Expr
import LogDensity.Model.Basic
import LogDensity.Scalar.Datum

/-!
# Models given by formulas

A formula is a templated model whose density is an expression: a body, a normalising term that is
left out up to a constant, and a Jacobian term. It announces itself and its end with given texts.
Its parameters are one vector; chosen entries of it are positive and are sampled as logarithms.
-/

namespace LogDensity

/-- A model as a formula. -/
structure Formula where
  name : String := "expr"
  size : Nat := 1
  body : Expr Datum
  /-- A term that does not depend on the parameters. -/
  norm : Option (Expr Datum) := none
  /-- The log Jacobian of the transform. -/
  jacobian : Option (Expr Datum) := none
  /-- Texts written before the density is evaluated. -/
  opening : List String := []
  /-- Text written when it has been evaluated. -/
  closing : Option String := none
  ranges : List (Int × Int) := []
  info : List String := []
  /-- The variables that initial values are read from, with their numbers of values. -/
  inits : List (String × Nat) := []
  /-- The positions of positive parameters. -/
  positive : List Nat := []
  /-- The number of zeros written behind the values of a draw. -/
  extra : Nat := 0

namespace Formula

/-- The expression of the density in a mode. -/
def density (f : Formula) (mode : Mode) : Expr Datum :=
  let add (e : Expr Datum) (term : Option (Expr Datum)) : Expr Datum :=
    match term with
    | some t => .binary (.function .add) e t
    | none => e
  let e := if mode.propto then f.body else add f.body f.norm
  if mode.jacobian then add e f.jacobian else e

/-- The density program. -/
def program (f : Formula) (mode : Mode) (params : List (Slot Datum)) (ints : List Int) :
    Program Datum :=
  Step.toProgram do
    f.opening.forM Step.write
    let lp ← (f.density mode).steps ints params []
    f.closing.forM Step.write
    pure lp

/-- Applies a partial function to the entries at some positions, one after the other. -/
def mapAt (g : Nat → Float → Outcome Float) (positions : List Nat) (xs : List Float) :
    Outcome (List Float) :=
  positions.foldlM
    (fun xs k =>
      match xs[k]? with
      | some x => (g k x).map (xs.set k)
      | none => .error (.breach (.indexOutOfRange xs.length k)))
    xs

/-- The logarithm of a positive value at a position. -/
def unconstrain (k : Nat) (x : Float) : Outcome Float :=
  if 0 < x then .ok x.log
  else .error (.error (.domain s!"value {k} must be positive"))

/-- Reads the values of variables, announcing each. -/
def readVariables (c : Context) : List (String × Nat) → Report (Outcome (List Float))
  | [] => pure (.ok [])
  | (name, count) :: rest => do
    Report.say s!"read {name};"
    match c.checkedValues name count with
    | .error e => pure (.error (.error e))
    | .ok xs =>
      let others ← readVariables c rest
      pure (others.map fun ys => xs ++ ys)

/-- The fraction that the upper 53 bits of a word stand for. -/
def fraction (w : UInt64) : Float :=
  Float.ofNat (w >>> 11).toNat / 9007199254740992

/-- Constrained values: the parameters, their squares as transformed parameters, and a random
fraction as generated quantity. -/
def constrain (f : Formula) (xs : List Float) (transformed generated : Bool) (s : WordSource) :
    Outcome (List Float) × WordSource :=
  if xs.length < f.size then
    (.error (.error (.domain s!"need {f.size} values, got {xs.length}")), s)
  else
    match mapAt (fun _ x => .ok x.exp) f.positive (xs.take f.size) with
    | .error e => (.error e, s)
    | .ok values =>
      let squares := if transformed then values.map fun x => x * x else []
      let zeros := List.replicate f.extra (0 : Float)
      if generated then
        let (w, s) := s.next
        (.ok (values ++ squares ++ [fraction w] ++ zeros), s)
      else (.ok (values ++ squares ++ zeros), s)

/-- The names `p.1`, `p.2`, … of a vector of `n` values. -/
def flatNames (p : String) (n : Nat) : List String :=
  (List.range n).map fun i => s!"{p}.{i + 1}"

/-- The names of all values asked for. -/
def names (f : Formula) (p : String) (transformed generated : Bool) : List String :=
  flatNames p f.size ++ (if transformed then flatNames "t" f.size else []) ++
    (if generated then ["g"] else [])

/-- The parameters of the model. -/
def space (f : Formula) : ParameterSpace where
  name := f.name
  info := f.info
  size := f.size
  ranges := f.ranges
  quantities := ["p"]
  dims := [[f.size]]
  constrainedNames := f.names "c"
  unconstrainedNames := f.names "u"
  readInits c := do
    let xs ← readVariables c f.inits
    pure (xs.bind (mapAt unconstrain f.positive))
  writeArray xs transformed generated s := do
    Report.say s!"write {xs.length};"
    pure (f.constrain xs transformed generated s)

/-- The model. -/
def model (f : Formula) : Model Datum where
  space := f.space
  density := .templated f.program

end Formula

end LogDensity
