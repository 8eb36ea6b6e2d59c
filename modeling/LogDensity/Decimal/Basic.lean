/-!
# Decimal numbers and quotients on decimal grids

A `Decimal` is `digits * 10 ^ exponent`. A positive rational number comes as a quotient `num / den`
of natural numbers; this module finds its order of magnitude (`magnitude`), cuts it to a grid of
powers of ten (`cut`) and rounds it to a whole number, halves to even (`roundHalfEven`).
-/

namespace LogDensity

/-- The number `digits * 10 ^ exponent`. -/
structure Decimal where
  digits : Nat
  exponent : Int
  deriving DecidableEq, Repr

namespace Decimal

/-- The number of decimal digits of a natural number; one for zero. -/
def width (n : Nat) : Nat :=
  (Nat.toDigits 10 n).length

/-- The largest `k` with `10 ^ k ≤ num / den`, for positive `num` and `den`. -/
def magnitude (num den : Nat) : Int :=
  if den ≤ num then (width (num / den) : Int) - 1
  else -(width ((den - 1) / num) : Int)

/-- Quotient, remainder and divisor of `num / den` by `10 ^ k`. -/
def cut (num den : Nat) (k : Int) : Nat × Nat × Nat :=
  let n := num * Nat.pow 10 (-k).toNat
  let d := den * Nat.pow 10 k.toNat
  (n / d, n % d, d)

/-- The whole number nearest to `num / den`, the even one of two. -/
def roundHalfEven (num den : Nat) : Nat :=
  let q := num / den
  let r := num % den
  if 2 * r < den then q
  else if den < 2 * r then q + 1
  else q + q % 2

/-- The same number without trailing zeros among the digits. -/
def trim (d : Decimal) : Decimal :=
  if h : d.digits ≠ 0 ∧ d.digits % 10 = 0 then
    trim ⟨d.digits / 10, d.exponent + 1⟩
  else d
termination_by d.digits
decreasing_by omega

/-- The nearest decimal of `n` significant digits to `num / den`, halves to even. -/
def significant (n num den : Nat) : Decimal :=
  let k := magnitude num den - ((n : Int) - 1)
  trim ⟨roundHalfEven (num * Nat.pow 10 (-k).toNat) (den * Nat.pow 10 k.toNat), k⟩

/-! ## Written forms -/

/-- The digits of a natural number. -/
def digitChars (n : Nat) : List Char :=
  Nat.toDigits 10 n

/-- `n` characters `0`. -/
def zeros (n : Nat) : List Char :=
  List.replicate n '0'

/-- The number without an exponent: a point appears only if there are digits after it. -/
def positional (d : Decimal) : String :=
  let s := digitChars d.digits
  if 0 ≤ d.exponent then String.ofList (s ++ zeros d.exponent.toNat)
  else
    let k := (-d.exponent).toNat
    if k < s.length then
      String.ofList (s.take (s.length - k) ++ '.' :: s.drop (s.length - k))
    else String.ofList ('0' :: '.' :: zeros (k - s.length) ++ s)

/-- One digit before the point, the others after it, then the power of ten of the first digit. A
number of one digit has no point. -/
def withExponent (d : Decimal) : String :=
  let s := digitChars d.digits
  let mantissa :=
    match s with
    | [] => []
    | [c] => [c]
    | c :: rest => c :: '.' :: rest
  String.ofList mantissa ++ "e" ++ toString (d.exponent + s.length - 1)

/-- A number with exactly `places` digits after the point; no point if there are none. -/
def fixedPlaces (places num den : Nat) : String :=
  let n := roundHalfEven (num * Nat.pow 10 places) den
  let whole := digitChars (n / Nat.pow 10 places)
  let rest := digitChars (n % Nat.pow 10 places)
  if places = 0 then String.ofList whole
  else String.ofList (whole ++ '.' :: zeros (places - rest.length) ++ rest)

/-- Blanks in front up to a width. -/
def padLeft (width : Nat) (s : String) : String :=
  String.ofList (List.replicate (width - s.length) ' ') ++ s

end Decimal

end LogDensity
