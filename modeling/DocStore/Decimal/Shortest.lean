/-!
# Shortest decimals

`Decimal.shortest` gives, for a positive dyadic value, the decimal with
the fewest digits among those that round back to it, and of these the
nearest. All arithmetic is on natural numbers, so nothing here depends on
how the machine divides floats.
-/

namespace DocStore

/-- **A decimal**: `digits · 10 ^ exponent`. -/
structure Decimal where
  digits : Nat
  exponent : Int
  deriving DecidableEq, Repr

namespace Decimal

/-- Which way a value goes that lies halfway between two decimals. -/
inductive Tie where
  | toEven
  | up
  deriving DecidableEq, Repr

/-- The number of decimal digits of `n`, where zero has one. -/
def digitCount (n : Nat) : Nat := (Nat.toDigits 10 n).length

/-- The `e` with `10 ^ e ≤ num / den < 10 ^ (e + 1)`, both parts positive. -/
def magnitude (num den : Nat) : Int :=
  if den ≤ num then (digitCount (num / den) : Int) - 1
  else
    let n := digitCount (den / num)
    if den ≤ num * Nat.pow 10 (n - 1) then 1 - (n : Int) else -(n : Int)

/-- **A value with its rounding interval**: the quotients `low / den`,
`num / den` and `high / den`, the ends belonging to it when `closed`. -/
structure Interval where
  low : Nat
  num : Nat
  high : Nat
  den : Nat
  closed : Bool

namespace Interval

/-- The value `m · 2 ^ q` with the reals that round to it. The gap below a
power of two is half as wide, which `narrow` says. -/
def ofDyadic (m : Nat) (q : Int) (narrow : Bool) : Interval :=
  let scale := Nat.pow 2 (q - 2).toNat
  { low := (4 * m - if narrow then 1 else 2) * scale
    num := 4 * m * scale
    high := (4 * m + 2) * scale
    den := Nat.pow 2 (2 - q).toNat
    closed := m % 2 == 0 }

/-- Whether `c / unit` lies in the interval, all parts over `den · unit`. -/
def holds (i : Interval) (c unit : Nat) : Bool :=
  if i.closed then i.low * unit ≤ c * i.den && c * i.den ≤ i.high * unit
  else i.low * unit < c * i.den && c * i.den < i.high * unit

/-- The decimal on the grid `10 ^ k` that reads back as the value: one of the
two neighbours of the value, the nearer one if both do. -/
def onGrid? (i : Interval) (tie : Tie) (k : Int) : Option Decimal :=
  let step := Nat.pow 10 k.toNat
  let unit := Nat.pow 10 (-k).toNat
  let c := i.num * unit / (i.den * step)
  match i.holds (c * step) unit, i.holds ((c + 1) * step) unit with
  | true, false => some ⟨c, k⟩
  | false, true => some ⟨c + 1, k⟩
  | true, true =>
    let twice := 2 * i.num * unit
    let middle := (2 * c + 1) * step * i.den
    if twice < middle then some ⟨c, k⟩
    else if middle < twice then some ⟨c + 1, k⟩
    else match tie with
      | .up => some ⟨c + 1, k⟩
      | .toEven => some ⟨if c % 2 == 0 then c else c + 1, k⟩
  | false, false => none

end Interval

/-- Drops the zeros at the end of the digits. -/
def trim (d : Decimal) : Decimal :=
  if d.digits = 0 then d
  else go d.digits d.digits d.exponent
where
  /-- Divides by ten while it can, at most as often as the fuel says. -/
  go : Nat → Nat → Int → Decimal
    | 0, n, e => ⟨n, e⟩
    | fuel + 1, n, e => if n % 10 = 0 then go fuel (n / 10) (e + 1) else ⟨n, e⟩

/-- The most digits that a double ever needs. -/
def maxDigits : Nat := 17

/-- **The shortest decimal** that rounds back to `m · 2 ^ q`: the first of
the grids of one, two, … digits with a point in the rounding interval. -/
def shortest (tie : Tie) (m : Nat) (q : Int) (narrow : Bool) : Decimal :=
  let i := Interval.ofDyadic m q narrow
  let e := magnitude i.num i.den
  let found := (List.range maxDigits).findSome? fun (n : Nat) => i.onGrid? tie (e - n)
  trim (found.getD ⟨0, 0⟩)

end Decimal

end DocStore
