import LogDensity.Formula.Expr
import LogDensity.Program.Run
import LogDensity.Scalar.Radix

/-!
# A calculator on one tape

A calculator has a tape, numbered scopes on it, and numbered registers of dual numbers. Its commands
open and close scopes in any order, fill registers, and look at what registers hold. Scopes do not
guard registers: one whose node was released stays in its place, and the tape itself refuses it.
-/

namespace LogDensity

/-- The number types that a constant can be given in. -/
inductive NumberType
  | binary32
  | binary64
  | integer (low high : Int)
  deriving DecidableEq, Repr

namespace NumberType

/-- Reads a number of the type, and takes it as a binary64 number. -/
def read? (t : NumberType) (s : String) : Option Datum := do
  let l ← Literal.ofString? s
  match t with
  | binary32 => some (.withNaNSign l.toFloat32 l.isNegative)
  | binary64 => some (.ofLiteral l)
  | integer low high =>
    match l with
    | .finite negative digits 0 =>
      let i : Int := if negative then -(digits : Int) else digits
      if low ≤ i ∧ i ≤ high then some (i : Datum) else none
    | _ => none

end NumberType

/-- What a calculator can compute from registers. -/
inductive Operation
  | unary (f : UnaryName) (a : Nat)
  | binary (f : BinaryName) (a b : Nat)
  | mulAdd (a b c : Nat)
  | clamp (a low high : Nat)
  | sum (terms : List Nat)

/-- The commands of a calculator. -/
inductive Command
  | openScope
  | closeScope (scope : Nat)
  | leaves (xs : List Datum)
  | constant (x : Datum)
  | compute (op : Operation)
  | sinCos (a : Nat)
  | read (radix : Nat) (text : String)
  | cast (t : NumberType) (text : String)
  | compare (a b : Nat)
  | inspect (a : Nat)
  | integers (a : Nat)
  | format (a : Nat) (places : Option Nat) (width : Nat)
  | describe (a : Nat)
  | gradient (scope out : Nat) (wrt : List Nat)
  | size

/-- What a register holds, and the length of the tape. -/
structure RegisterView where
  value : Datum
  isConstant : Bool
  size : Nat

/-- The order of two numbers and the comparisons that hold. -/
structure Comparison where
  eq : Bool
  order : Option Ordering
  lt : Bool
  le : Bool
  gt : Bool
  ge : Bool

/-- The properties of a number. -/
structure Properties where
  value : Datum
  isConstant : Bool
  category : Binary64.Category
  isNegative : Bool
  isZero : Bool
  isOne : Bool
  /-- Mantissa, exponent and sign; not-a-number has none. -/
  decoded : Option (Nat × Int × Int)

/-- A number as integers of several widths, where it fits, and as floating-point numbers. -/
structure Conversions where
  signed64 : Option Int
  unsigned64 : Option Int
  signed32 : Option Int
  unsigned8 : Option Int
  signed128 : Option Int
  binary32 : Float
  binary64 : Float

/-- What a calculator answers. -/
inductive Reply
  | opened (mark size : Nat)
  | closed (size recoveries : Nat)
  | register (r : RegisterView)
  | registers (rs : List RegisterView)
  | compared (c : Comparison)
  | properties (p : Properties)
  | converted (c : Conversions)
  | text (s : String)
  | numbers (xs : List Datum)
  | size (n : Nat)
  | unreadable (e : RadixError)
  | stopped (s : Stop)

/-- A scope: its mark, and whether it is still open. -/
structure ScopeState where
  mark : Nat
  isOpen : Bool := true

/-- The tape, scopes and registers. -/
structure Calculator where
  workspace : Workspace Datum := {}
  scopes : Array ScopeState := #[]
  registers : Array (Dual Datum) := #[]

namespace Calculator

/-- The tape. -/
def tape (c : Calculator) : Tape Datum :=
  c.workspace.own

/-- The contents of a register; zero if there is no such register. -/
def register (c : Calculator) (a : Nat) : Dual Datum :=
  c.registers[a]?.getD (Dual.constant 0)

/-- A register as a slot. -/
def slot (c : Calculator) (a : Nat) : Slot Datum :=
  ⟨a, (c.register a).value⟩

/-- The mark of a scope. -/
def mark (c : Calculator) (scope : Nat) : Nat :=
  (c.scopes[scope]?.map ScopeState.mark).getD 0

/-- What is seen of a number. -/
def view (c : Calculator) (x : Dual Datum) : RegisterView :=
  ⟨x.value, x.isConstant, c.tape.size⟩

/-- Fills the next registers. -/
def fill (c : Calculator) (xs : List (Dual Datum)) : Calculator :=
  { c with registers := c.registers ++ xs }

/-- Fills one register and shows it. -/
def put (c : Calculator) (x : Dual Datum) : Reply × Calculator :=
  let c := c.fill [x]
  (.register (c.view x), c)

/-- Carries out steps that end in a number. -/
def run (c : Calculator) (s : Step Datum (Slot Datum)) : Except Stop (Dual Datum) × Calculator :=
  let (outcome, w) := s.toProgram.run (.recorded .own) c.registers c.workspace
  (outcome, { c with workspace := w })

/-- The steps of an operation. -/
def steps (c : Calculator) : Operation → Step Datum (Slot Datum)
  | .unary f a => f.steps (c.slot a)
  | .binary f a b => f.steps (c.slot a) (c.slot b)
  | .mulAdd x y z => Step.mulAdd (c.slot x) (c.slot y) (c.slot z)
  | .clamp a low high => Step.clamp (c.slot a) (c.slot low) (c.slot high)
  | .sum terms => Step.sum (terms.map c.slot)

/-- The comparison of two numbers by their values. -/
def comparison (x y : Float) : Comparison where
  eq := x == y
  order := if x < y then some .lt else if x == y then some .eq else if y < x then some .gt else none
  lt := x < y
  le := x ≤ y
  gt := y < x
  ge := y ≤ x

/-- The properties of a number. -/
def properties (x : Dual Datum) : Properties where
  value := x.value
  isConstant := x.isConstant
  category := Binary64.category x.value.value
  isNegative := x.value.isNegative
  isZero := x.value == 0
  isOne := x.value == 1
  decoded := if x.value.isNaN then none else some (Binary64.integerDecode x.value.value)

/-- The truncated number, if it lies between two bounds. -/
def truncated? (x : Float) (low high : Int) : Option Int :=
  (Binary64.toInt? x).filter fun i => low ≤ i ∧ i ≤ high

/-- The conversions of a number; the one to 128 bits passes through 64. -/
def conversions (x : Float) : Conversions where
  signed64 := truncated? x Int64.minValue.toInt Int64.maxValue.toInt
  unsigned64 := truncated? x 0 (UInt64.size - 1)
  signed32 := truncated? x Int32.minValue.toInt Int32.maxValue.toInt
  unsigned8 := truncated? x 0 (UInt8.size - 1)
  signed128 := truncated? x Int64.minValue.toInt Int64.maxValue.toInt
  binary32 := x.toFloat32.toFloat
  binary64 := x

/-- A number with a fixed number of places, or the shortest form. -/
def format (x : Float) (places : Option Nat) : String :=
  match places with
  | some p => Binary64.fixed p x
  | none => Binary64.display x

/-- A number and the position of its node. -/
def describe (x : Dual Datum) : String :=
  let index :=
    match x.index? with
    | some i => s!"Some({i})"
    | none => "None"
  "Var \x7b value: " ++ Binary64.literal x.value.value ++ ", index: " ++ index ++ " \x7d"

/-- Carries out a command. -/
def execute (c : Calculator) : Command → Reply × Calculator
  | .openScope =>
    let n := c.tape.size
    (.opened n n, { c with scopes := c.scopes.push { mark := n } })
  | .closeScope s =>
    let c :=
      match c.scopes[s]? with
      | some scope =>
        if scope.isOpen then
          { c with
            scopes := c.scopes.setIfInBounds s { scope with isOpen := false }
            workspace := c.workspace.release .own scope.mark }
        else c
      | none => c
    (.closed c.tape.size c.tape.recoveries, c)
  | .leaves xs =>
    let (vs, t) := c.tape.leaves xs
    let c := { c with workspace := c.workspace.setTape t .own }.fill vs
    (.registers (vs.map c.view), c)
  | .constant x => c.put (Dual.constant x)
  | .compute op =>
    match c.run (c.steps op) with
    | (.ok x, c) => c.put x
    | (.error s, c) => (.stopped s, c)
  | .sinCos a =>
    match c.run (Step.unary .sin (c.slot a)) with
    | (.error s, c) => (.stopped s, c)
    | (.ok x, c) =>
      match c.run (Step.unary .cos (c.slot a)) with
      | (.error s, c) => (.stopped s, c)
      | (.ok y, c) =>
        let c := c.fill [x, y]
        (.registers [c.view x, c.view y], c)
  | .read radix text =>
    match Radix.read radix text with
    | .ok x => c.put (Dual.constant x)
    | .error e => (.unreadable e, c)
  | .cast t text =>
    match t.read? text with
    | some x => c.put (Dual.constant x)
    | none => (.unreadable .invalid, c)
  | .compare a b =>
    (.compared (comparison (c.register a).value.value (c.register b).value.value), c)
  | .inspect a => (.properties (properties (c.register a)), c)
  | .integers a => (.converted (conversions (c.register a).value.value), c)
  | .format a places width =>
    (.text (Decimal.padLeft width (format (c.register a).value.value places)), c)
  | .describe a => (.text (describe (c.register a)), c)
  | .gradient scope out wrt =>
    match c.tape.gradient (c.mark scope) (c.register out) (wrt.map c.register) with
    | .ok xs => (.numbers xs, c)
    | .error b => (.stopped (.breach b), c)
  | .size => (.size c.tape.size, c)

/-- Carries out commands from left to right. -/
def executeAll (c : Calculator) : List Command → List Reply × Calculator
  | [] => ([], c)
  | command :: rest =>
    let (r, c) := c.execute command
    let (rs, c) := c.executeAll rest
    (r :: rs, c)

end Calculator

end LogDensity
