import LogDensity.Decimal.Basic

/-!
# The fewest digits that read back

A binary number `m * 2 ^ e` stands for all reals that round to it: an interval around it, whose
ends belong to it exactly if `m` is even. `shortest` finds the decimal with the fewest digits in
that interval, the nearest one if there are several, the larger one of two equally near. On each
grid of powers of ten only the two neighbours of the number have to be tried.
-/

namespace LogDensity.Decimal

/-- The reals that round to a number: from `low / den` to `high / den`, around `mid / den`. -/
structure Interval where
  low : Nat
  mid : Nat
  high : Nat
  den : Nat
  closed : Bool
  deriving Repr

/-- The interval of `m * 2 ^ e` among numbers with mantissas of 53 bits and exponents from `-1074`.
Below a power of two the neighbour is only half as far away. -/
def Interval.of (m : Nat) (e : Int) : Interval :=
  let unit := Nat.pow 2 e.toNat
  { low := (4 * m - (if m = Nat.pow 2 52 ∧ -1074 < e then 1 else 2)) * unit
    mid := 4 * m * unit
    high := (4 * m + 2) * unit
    den := 4 * Nat.pow 2 (-e).toNat
    closed := m % 2 = 0 }

/-- Whether the decimal `c * 10 ^ k` lies in the interval. -/
def Interval.contains (i : Interval) (c : Nat) (k : Int) : Bool :=
  let x := c * Nat.pow 10 k.toNat * i.den
  let low := i.low * Nat.pow 10 (-k).toNat
  let high := i.high * Nat.pow 10 (-k).toNat
  if i.closed then low ≤ x && x ≤ high else low < x && x < high

/-- The better of the two neighbours on the grid of `10 ^ k` that lie in the interval. -/
def Interval.onGrid? (i : Interval) (k : Int) : Option Decimal :=
  let (q, r, d) := cut i.mid i.den k
  match i.contains q k, i.contains (q + 1) k with
  | true, true => some ⟨if 2 * r < d then q else q + 1, k⟩
  | true, false => some ⟨q, k⟩
  | false, true => some ⟨q + 1, k⟩
  | false, false => none

/-- The shortest decimal that reads back as `m * 2 ^ e`; seventeen digits always suffice. -/
def shortest (m : Nat) (e : Int) : Decimal :=
  let i := Interval.of m e
  let top := magnitude i.mid i.den
  let found := (List.range 17).findSome? fun n : Nat => i.onGrid? (top - n)
  trim (found.getD ⟨(cut i.mid i.den (top - 16)).1, top - 16⟩)

end LogDensity.Decimal
