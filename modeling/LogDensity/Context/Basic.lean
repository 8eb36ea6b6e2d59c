import LogDensity.Context.Table
import LogDensity.Fault

/-!
# Variable contexts

A context holds named variables, each with its values in column-major order and its dimensions
(none for a scalar). The dimensions multiply to the number of values: an insertion that would
break this is refused.
-/

namespace LogDensity

/-- The values of a variable and its dimensions. -/
structure Variable where
  values : List Float
  dims : List Nat

/-- Named variables. -/
structure Context where
  table : Table Variable := {}

/-- The product of dimensions, taken from left to right, none if it leaves 64 bits on the way. -/
def product? (dims : List Nat) : Option Nat :=
  dims.foldlM (fun n d => if n * d < UInt64.size then some (n * d) else none) 1

namespace Context

/-- Adds or replaces a variable. -/
def insert (c : Context) (name : String) (values : List Float) (dims : List Nat) :
    Except Breach Context :=
  match product? dims with
  | none => .error .productOverflow
  | some n =>
    if n = values.length then .ok ⟨c.table.insert name ⟨values, dims⟩⟩
    else .error (.dimensionMismatch name)

/-- Adds or replaces a scalar. -/
def withScalar (c : Context) (name : String) (x : Float) : Except Breach Context :=
  c.insert name [x] []

/-- Adds or replaces a one-dimensional array. -/
def withVector (c : Context) (name : String) (xs : List Float) : Except Breach Context :=
  c.insert name xs [xs.length]

/-- Whether there is a variable of the name. -/
def contains (c : Context) (name : String) : Bool :=
  (c.table.find? name).isSome

/-- The names of all variables, in order. -/
def names (c : Context) : List String :=
  c.table.names

/-- The variable of a name. -/
def lookup (c : Context) (name : String) : Except EvalError Variable :=
  match c.table.find? name with
  | some v => .ok v
  | none => .error (.missingVariable name)

/-- The values of a variable. -/
def values (c : Context) (name : String) : Except EvalError (List Float) :=
  (c.lookup name).map Variable.values

/-- The dimensions of a variable. -/
def dims (c : Context) (name : String) : Except EvalError (List Nat) :=
  (c.lookup name).map Variable.dims

/-- The values of a variable that has to have `expected` of them. -/
def checkedValues (c : Context) (name : String) (expected : Nat) :
    Except EvalError (List Float) := do
  let xs ← c.values name
  if xs.length = expected then .ok xs
  else .error (.sizeMismatch name expected xs.length)

/-- Whether two contexts have the same names, dimensions and values; values are compared as
numbers. -/
def same (c d : Context) : Bool :=
  c.table.entries.length == d.table.entries.length &&
    (c.table.entries.zip d.table.entries).all fun (a, b) =>
      a.1 == b.1 && a.2.values == b.2.values && a.2.dims == b.2.dims

end Context

end LogDensity
