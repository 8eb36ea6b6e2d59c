import LogDensity.Scalar.Datum

/-!
# Reading numbers in a radix

Radix ten is the grammar of `Literal`. In every other radix the number is accumulated digit by
digit in binary64 arithmetic: whole digits multiply what was read by the radix, digits after the
point are weighted by powers of the radix. As soon as a step cannot be undone exactly the number
counts as overflown, that is, as infinite. Radix sixteen admits a binary exponent behind `p`.
-/

namespace LogDensity

/-- Why a text is no number. -/
inductive RadixError
  | empty
  | invalid
  deriving DecidableEq, Repr

/-- The wording of a reading error. -/
def RadixError.message : RadixError → String
  | empty => "cannot parse float from empty string"
  | invalid => "invalid float literal"

namespace Radix

/-- The value of a digit, letters of either case counting from ten. -/
def digit? (radix : Nat) (c : Char) : Option Nat :=
  let value :=
    if c.isDigit then some (c.toNat - '0'.toNat)
    else if 'a' ≤ c ∧ c ≤ 'z' then some (c.toNat - 'a'.toNat + 10)
    else if 'A' ≤ c ∧ c ≤ 'Z' then some (c.toNat - 'A'.toNat + 10)
    else none
  value.filter (· < radix)

/-- How reading the digits ended: overflown, or with a number, the character that stopped it, and
the characters behind that one. -/
inductive Scan
  | overflow
  | stopped (value : Float) (stop : Option Char) (rest : List Char)

/-- Reads whole digits onto `x`. -/
def scanWhole (radix : Nat) (negative : Bool) (x : Float) : List Char → Scan
  | [] => .stopped x none []
  | c :: cs =>
    match digit? radix c with
    | none => .stopped x (some c) cs
    | some d =>
      let r := Float.ofNat radix
      let d := Float.ofNat d
      let y := if negative then x * r - d else x * r + d
      let lost :=
        if negative then x ≤ y || x != (y + d) / r else y ≤ x || x != (y - d) / r
      if x != 0 && lost then .overflow else scanWhole radix negative y cs

/-- Reads digits after the point onto `x`, the last of them weighted by `weight`. -/
def scanPlaces (radix : Nat) (negative : Bool) (weight x : Float) : List Char → Scan
  | [] => .stopped x none []
  | c :: cs =>
    match digit? radix c with
    | none => .stopped x (some c) cs
    | some d =>
      let weight := weight / Float.ofNat radix
      let part := Float.ofNat d * weight
      let y := if negative then x - part else x + part
      if (if negative then x < y else y < x) then .overflow
      else scanPlaces radix negative weight y cs

/-- A natural number below `2 ^ 64`, with an optional plus sign. -/
def word? (cs : List Char) : Option Nat :=
  let ds := match cs with
    | '+' :: ds => ds
    | ds => ds
  if ds = [] ∨ ¬ ds.all Char.isDigit then none
  else
    let n := Literal.readDigits 0 ds
    if n < UInt64.size then some n else none

/-- The factor that a binary exponent stands for. The exponent is taken modulo `2 ^ 32` as a
signed number. -/
def binaryScale? (cs : List Char) : Option Float :=
  match cs with
  | [] => none
  | '-' :: ds => (word? ds).map fun n => 1 / power (2 : Float) (Int.bmod n UInt32.size)
  | '+' :: ds => (word? ds).map fun n => power (2 : Float) (Int.bmod n UInt32.size)
  | ds => (word? ds).map fun n => power (2 : Float) (Int.bmod n UInt32.size)

/-- An overflown number. -/
def limit (negative : Bool) : Float :=
  if negative then -Binary64.infinity else Binary64.infinity

/-- What the character behind the digits makes of the number. -/
def finish (radix : Nat) (x : Float) (stop : Option Char) (rest : List Char) :
    Except RadixError Datum :=
  match stop with
  | none => .ok x
  | some c =>
    if (c = 'p' ∨ c = 'P') ∧ radix = 16 then
      match binaryScale? rest with
      | some scale => .ok ((x : Datum) * (scale : Datum))
      | none => .error .invalid
    else .error .invalid

/-- The number that the characters behind the sign denote. -/
def readMagnitude (radix : Nat) (negative : Bool) (cs : List Char) : Except RadixError Datum :=
  match scanWhole radix negative (if negative then -0.0 else 0.0) cs with
  | .overflow => .ok (limit negative)
  | .stopped x (some '.') rest =>
    match scanPlaces radix negative 1 x rest with
    | .overflow => .ok (limit negative)
    | .stopped y stop rest => finish radix y stop rest
  | .stopped x stop rest => finish radix x stop rest

/-- The words for the non-finite numbers, with an optional minus. -/
def word (s : String) : Option Datum :=
  let (negative, cs) := match s.toList with
    | '-' :: cs => (true, cs)
    | cs => (false, cs)
  let name := cs.map Char.toLower
  if name = "inf".toList ∨ name = "infinity".toList then some (limit negative)
  else if name = "nan".toList then some (.withNaNSign Binary64.nan negative)
  else none

/-- Reads a number in the given radix. -/
def read (radix : Nat) (s : String) : Except RadixError Datum :=
  if radix = 10 then
    match Literal.ofString? s with
    | some l => .ok (.ofLiteral l)
    | none => .error (if s = "" then .empty else .invalid)
  else
    match word s with
    | some x => .ok x
    | none =>
      match s.toList with
      | [] | ['-'] => .error .empty
      | '-' :: cs => readMagnitude radix true cs
      | cs => readMagnitude radix false cs

end Radix

end LogDensity
