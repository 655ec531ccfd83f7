import DocStore.Decimal.Shortest
/-!
# Writing floats

A `Layout` holds the decisions of one float format: where it stays
positional, whether a whole number keeps a fraction, and which way ties
go. `Layout.text` writes a finite float in it.
-/

namespace DocStore

namespace Decimal

/-- **The decisions of a float format.** -/
structure Layout where
  /-- Whether a value whose first digit stands for `10 ^ e` is written
  without an exponent. -/
  positional : Int → Bool
  /-- Whether a whole number is followed by `.0`. -/
  keepFraction : Bool
  tie : Tie

/-- Digits with the point after the first `point` of them; `point` may lie
before the first digit or after the last. -/
def pointed (digits : List Char) (point : Int) (keepFraction : Bool) : List Char :=
  if point ≤ 0 then
    '0' :: '.' :: (List.replicate (-point).toNat '0' ++ digits)
  else
    let n := point.toNat
    if n < digits.length then digits.take n ++ '.' :: digits.drop n
    else digits ++ List.replicate (n - digits.length) '0' ++ if keepFraction then ['.', '0'] else []

/-- One digit before the point, and the exponent always signed. -/
def scientific (digits : List Char) (exponent : Int) : List Char :=
  digits.take 1 ++ (if digits.length ≤ 1 then [] else '.' :: digits.drop 1) ++
    'e' :: (if exponent < 0 then '-' else '+') :: Nat.toDigits 10 exponent.natAbs

/-- The text of a positive decimal. -/
def Layout.ofDecimal (l : Layout) (d : Decimal) : List Char :=
  let digits := Nat.toDigits 10 d.digits
  let leading := d.exponent + digits.length - 1
  if l.positional leading then pointed digits (leading + 1) l.keepFraction
  else scientific digits leading

end Decimal

/-! ## The parts of a double -/

namespace Double

/-- The stored exponent, 2047 for what is not finite. -/
def exponentField (x : Float) : Nat := x.toBits.toNat / 0x10000000000000 % 2048

/-- The stored fraction. -/
def fractionField (x : Float) : Nat := x.toBits.toNat % 0x10000000000000

/-- Whether the sign bit is set, also of a zero. -/
def isNegative (x : Float) : Bool := 0x8000000000000000 ≤ x.toBits.toNat

/-- The integer `m` of a finite `±m · 2 ^ q`. -/
def significand (x : Float) : Nat :=
  if exponentField x = 0 then fractionField x else 0x10000000000000 + fractionField x

/-- The integer `q` of a finite `±m · 2 ^ q`. -/
def binaryExponent (x : Float) : Int := max (exponentField x : Int) 1 - 1075

/-- Whether the float below is nearer than the one above. -/
def narrowBelow (x : Float) : Bool := fractionField x == 0 && 1 < exponentField x

end Double

/-- The text of a finite float. -/
def Decimal.Layout.text (l : Layout) (x : Float) : String :=
  let sign := if Double.isNegative x then ['-'] else []
  let m := Double.significand x
  String.ofList <| sign ++
    if m = 0 then '0' :: if l.keepFraction then ['.', '0'] else []
    else l.ofDecimal
      (shortest l.tie m (Double.binaryExponent x) (Double.narrowBelow x))

end DocStore
