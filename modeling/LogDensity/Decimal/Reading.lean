/-!
# Reading decimal literals

A literal is an optional sign and then one of the words `inf`, `infinity`, `nan` in any case, or
digits with an optional point (at least one digit in all) and an optional exponent. Blanks and
separators are not part of the grammar. The value is rounded once, to the nearest number of the
format that is asked for.
-/

namespace LogDensity

/-- What a decimal literal says: a word, or `± digits * 10 ^ exponent`. -/
inductive Literal
  | finite (negative : Bool) (digits : Nat) (exponent : Int)
  | infinite (negative : Bool)
  | nan (negative : Bool)
  deriving DecidableEq, Repr

namespace Literal

/-- The number with one more decimal digit. -/
def pushDigit (n : Nat) (c : Char) : Nat :=
  10 * n + (c.toNat - '0'.toNat)

/-- The value of a run of decimal digits behind the digits of `n`. -/
def readDigits (n : Nat) (cs : List Char) : Nat :=
  cs.foldl pushDigit n

/-- An optional sign: whether it is a minus, and what follows. -/
def takeSign : List Char → Bool × List Char
  | '-' :: cs => (true, cs)
  | '+' :: cs => (false, cs)
  | cs => (false, cs)

/-- The exponent at the end of a literal; none stands for zero. -/
def readExponent? : List Char → Option Int
  | [] => some 0
  | c :: cs =>
    if c = 'e' ∨ c = 'E' then
      let (negative, ds) := takeSign cs
      if ds = [] ∨ ¬ ds.all Char.isDigit then none
      else some (if negative then -(readDigits 0 ds : Int) else readDigits 0 ds)
    else none

end Literal

/-- An unsigned number as it is written: the digits before the point, those after it, and the power
of ten. -/
structure Numeral where
  whole : List Char
  places : List Char
  exponent : Int

/-- Reads a whole text as a number. -/
def Numeral.ofList? (cs : List Char) : Option Numeral :=
  let whole := cs.takeWhile Char.isDigit
  let rest := cs.dropWhile Char.isDigit
  let (places, rest) :=
    match rest with
    | '.' :: cs => (cs.takeWhile Char.isDigit, cs.dropWhile Char.isDigit)
    | cs => ([], cs)
  if whole = [] ∧ places = [] then none
  else (Literal.readExponent? rest).map fun exponent => { whole, places, exponent }

namespace Literal

/-- Digits, point and exponent. -/
def readNumber? (negative : Bool) (cs : List Char) : Option Literal :=
  (Numeral.ofList? cs).map fun n =>
    .finite negative (readDigits (readDigits 0 n.whole) n.places) (n.exponent - n.places.length)

/-- Reads a whole text as a literal. -/
def ofString? (s : String) : Option Literal :=
  let (negative, cs) := takeSign s.toList
  let word := cs.map Char.toLower
  if word = "inf".toList ∨ word = "infinity".toList then some (.infinite negative)
  else if word = "nan".toList then some (.nan negative)
  else readNumber? negative cs

/-- The nearest binary64 number. -/
def toFloat : Literal → Float
  | finite negative digits exponent =>
    let x := Float.ofScientific digits (exponent < 0) exponent.natAbs
    if negative then -x else x
  | infinite negative => if negative then -1 / 0 else 1 / 0
  | nan _ => 0 / 0

/-- The nearest binary32 number, as a binary64 one. -/
def toFloat32 : Literal → Float
  | finite negative digits exponent =>
    let x := (Float32.ofScientific digits (exponent < 0) exponent.natAbs).toFloat
    if negative then -x else x
  | infinite negative => if negative then -1 / 0 else 1 / 0
  | nan _ => 0 / 0

/-- The sign in front of the literal. -/
def isNegative : Literal → Bool
  | finite negative _ _ => negative
  | infinite negative => negative
  | nan negative => negative

end Literal

end LogDensity
