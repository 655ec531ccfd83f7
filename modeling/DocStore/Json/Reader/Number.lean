import DocStore.Json.Reader.Basic
/-!
# Reading numbers

Whole numbers are read exactly as far as 64 bits go. All other numbers are
read the quick way: the digits are gathered into 64 bits, digits past that
only move the point, and one multiplication or division by a power of ten
gives the float. The result may be off in its last bits.
-/

namespace DocStore

namespace Reader

/-- One above the largest gathered significand. -/
def significandLimit : Nat := 0x10000000000000000

/-- One above the largest exponent that is read. -/
def exponentLimit : Nat := 0x80000000

/-- The double nearest to `10 ^ k`. -/
def powerOfTen (k : Nat) : Float := Float.ofScientific 1 false k

/-- `x / 10 ^ k`, dividing by at most `10 ^ 308` at a time. -/
def scaleDown (x : Float) (k : Nat) : Float :=
  if h : k ≤ 308 then x / powerOfTen k
  else if x == 0 then x
  else scaleDown (x / powerOfTen 308) (k - 308)
termination_by k

/-- `significand · 10 ^ exponent` in floats; `none` if it is out of range. -/
def scaled (significand : Nat) (exponent : Int) : Option Float :=
  let x := (UInt64.ofNat significand).toFloat
  match exponent with
  | .ofNat k =>
    if k ≤ 308 then some (x * powerOfTen k)
    else if x == 0 then some x
    else none
  | .negSucc k => some (scaleDown x (k + 1))

/-- The float of the given parts, if it is finite. -/
def floatOfParts (negative : Bool) (significand : Nat) (exponent : Int)
    (left : List UInt8) : Except Fault (Number × List UInt8) :=
  match scaled significand exponent with
  | none => stop .numberOutOfRange left
  | some x =>
    let y := if negative then -x else x
    if h : y.isFinite = true then .ok (.float y h, left) else stop .numberOutOfRange left

/-- A whole number; a negative one must not be zero and must fit 64 bits, else
it is a float. -/
def wholeOfParts (negative : Bool) (significand : Nat) (left : List UInt8) :
    Except Fault (Number × List UInt8) :=
  let n : Int := if negative then -(significand : Int) else significand
  if h : -0x8000000000000000 ≤ n ∧ n < 0x10000000000000000 then
    if negative && significand == 0 then floatOfParts negative significand 0 left
    else .ok (.whole n h.1 h.2, left)
  else floatOfParts negative significand 0 left

/-- The digits of an exponent after the first; `none` in place of the value
when it leaves its range. Then the digits that are left stay unread. -/
def exponentDigits (value : Nat) : List UInt8 → Option Nat × List UInt8
  | b :: left =>
    if isDigit b then
      let next := value * 10 + digitValue b
      if next < exponentLimit then exponentDigits next left else (none, left)
    else (some value, b :: left)
  | [] => (some value, [])

/-- Adds two exponents within 32 bits, staying at the nearer bound. -/
def addExponents (a b : Int) : Int :=
  if a + b < -0x80000000 then -0x80000000
  else if 0x7FFFFFFF < a + b then 0x7FFFFFFF
  else a + b

/-- Reads an exponent from behind its letter. -/
def exponentPart (negative : Bool) (significand : Nat) (exponent : Int)
    (left : List UInt8) : Except Fault (Number × List UInt8) :=
  let (down, left) : Bool × List UInt8 := match left with
    | 0x2B :: left => (false, left)
    | 0x2D :: left => (true, left)
    | left => (false, left)
  match left with
  | [] => stop .endOfValue []
  | b :: left =>
    if isDigit b then
      match exponentDigits (digitValue b) left with
      | (some e, left) =>
        floatOfParts negative significand
          (addExponents exponent (if down then -(e : Int) else e)) left
      | (none, left) =>
        if significand ≠ 0 && !down then stop .numberOutOfRange left
        else floatOfParts negative 0 0 (left.dropWhile isDigit)
    else stop .badNumber left

/-- The end of a number with a fraction or with digits past 64 bits: an
exponent, or nothing. -/
def afterFraction (negative : Bool) (significand : Nat) (exponent : Int)
    (left : List UInt8) : Except Fault (Number × List UInt8) :=
  match left with
  | b :: rest =>
    if b == 0x65 || b == 0x45 then exponentPart negative significand exponent rest
    else floatOfParts negative significand exponent left
  | [] => floatOfParts negative significand exponent left

/-- Gathers fraction digits: the significand, how many were taken, and what is
left. From the first that does not fit, digits are passed over. -/
def fractionDigits (significand taken : Nat) : List UInt8 → Nat × Nat × Bool × List UInt8
  | b :: left =>
    if isDigit b then
      let next := significand * 10 + digitValue b
      if next < significandLimit then fractionDigits next (taken + 1) left
      else (significand, taken, true, left.dropWhile isDigit)
    else (significand, taken, false, b :: left)
  | [] => (significand, taken, false, [])

/-- Reads a fraction from behind its point. -/
def fractionPart (negative : Bool) (significand : Nat) (exponent : Int)
    (left : List UInt8) : Except Fault (Number × List UInt8) :=
  let (significand, taken, overflowed, left) := fractionDigits significand 0 left
  if taken = 0 && !overflowed then
    match left with
    | [] => stop .endOfValue []
    | left => stopAt .badNumber left
  else afterFraction negative significand (exponent - taken) left

/-- Gathers the digits before the point: the significand, how many digits did
not fit, and what is left. -/
def wholeDigits (significand : Nat) : List UInt8 → Nat × Nat × List UInt8
  | b :: left =>
    if isDigit b then
      let next := significand * 10 + digitValue b
      if next < significandLimit then wholeDigits next left
      else
        let dropped := (left.takeWhile isDigit).length + 1
        (significand, dropped, left.dropWhile isDigit)
    else (significand, 0, b :: left)
  | [] => (significand, 0, [])

/-- Reads what follows the digits before the point. -/
def afterWhole (negative : Bool) (significand dropped : Nat) (left : List UInt8) :
    Except Fault (Number × List UInt8) :=
  let finish : Except Fault (Number × List UInt8) :=
    if dropped = 0 then wholeOfParts negative significand left
    else floatOfParts negative significand dropped left
  match left with
  | b :: rest =>
    if b == 0x2E then fractionPart negative significand dropped rest
    else if b == 0x65 || b == 0x45 then exponentPart negative significand dropped rest
    else finish
  | [] => finish

/-- **Reads a number** from behind its sign, if it has one. -/
def number (negative : Bool) (left : List UInt8) : Except Fault (Number × List UInt8) :=
  match left with
  | [] => stop .endOfValue []
  | b :: rest =>
    if b == 0x30 then
      match rest with
      | c :: _ =>
        if isDigit c then stopAt .badNumber rest else afterWhole negative 0 0 rest
      | [] => afterWhole negative 0 0 rest
    else if isDigit b then
      let (significand, dropped, rest) := wholeDigits (digitValue b) rest
      afterWhole negative significand dropped rest
    else stop .badNumber rest

end Reader

end DocStore
