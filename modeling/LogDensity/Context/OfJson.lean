import LogDensity.Context.Basic
import LogDensity.Context.Json

/-!
# Contexts from JSON

A JSON object is read as a context: each member is a number or an array of numbers of any rank,
written row by row, and its values are stored column-major. The shape of a member is read off its
first elements, and the number of its values has to fit it.
-/

namespace LogDensity

namespace Json

/-- The lengths of an array, of its first element, of the first element of that, and so on. -/
def shape : Json → List Nat
  | .array [] => [0]
  | .array (x :: xs) => (xs.length + 1) :: x.shape
  | _ => []

mutual

/-- The numbers of nested arrays in the order of the text; none if anything else is in them. -/
def numbers? : Json → Option (List Float)
  | .number x => some [x]
  | .array items => numbersOfList? items
  | _ => none

/-- The numbers of a list of nested arrays. -/
def numbersOfList? : List Json → Option (List Float)
  | [] => some []
  | v :: vs => do
    let xs ← v.numbers?
    let ys ← numbersOfList? vs
    some (xs ++ ys)

end

end Json

/-- The column-major position of a multi-index, the first index running fastest. Elements that are
neighbours in the first direction lie `stride` apart. -/
def columnOffset (stride : Nat) : List Nat → List Nat → Nat
  | d :: dims, i :: index => i * stride + columnOffset (stride * d) dims index
  | _, _ => 0

/-- The next multi-index in row-major order, the last index running fastest, and whether the first
index has run over. -/
def advance : List Nat → List Nat → List Nat × Bool
  | d :: dims, i :: index =>
    match advance dims index with
    | (index, false) => (i :: index, false)
    | (index, true) => if i + 1 < d then ((i + 1) :: index, false) else (0 :: index, true)
  | _, _ => ([], true)

/-- Puts values in row-major order, of which the first has the multi-index `index`, into the cells
of an array in column-major order. -/
def place (dims : List Nat) :
    List Nat → List Float → Array Float → Except Breach (Array Float)
  | _, [], cells => .ok cells
  | index, x :: xs, cells =>
    let k := columnOffset 1 dims index
    if k < cells.size then place dims (advance dims index).1 xs (cells.setIfInBounds k x)
    else .error (.indexOutOfRange cells.size k)

/-- Values in row-major order, put into column-major order. -/
def columnMajor (dims : List Nat) (xs : List Float) : Except Breach (List Float) :=
  if dims.length < 2 then .ok xs
  else (place dims (dims.map fun _ => 0) xs (Array.replicate xs.length 0)).map Array.toList

namespace Context

/-- Adds the variable that a member of a JSON object describes. -/
def insertJson (c : Context) (name : String) (v : Json) : Except Stop Context :=
  match v.numbers? with
  | none => .error (.error (.domain s!"variable `{name}` must contain only numbers"))
  | some xs =>
    match product? v.shape with
    | none => .error (.breach .productOverflow)
    | some n =>
      if n = xs.length then
        ((columnMajor v.shape xs).bind fun values => c.insert name values v.shape).mapError .breach
      else .error (.error (.domain s!"variable `{name}` is ragged"))

/-- The context that a JSON document describes. Of members of one name the last one counts; the
others are taken in the order of their names. -/
def ofJson : Json → Except Stop Context
  | .object members =>
    (Table.ofList members).entries.foldlM (fun c m => c.insertJson m.1 m.2) {}
  | _ => .error (.error (.domain "variable context must be a JSON object"))

/-- Reads a context. -/
def ofString (s : String) : Except Stop Context :=
  match Json.ofString? s with
  | some v => ofJson v
  | none => .error (.error .json)

end Context

end LogDensity
