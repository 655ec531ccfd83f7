/-!
# Timestamps

An instant with the offset of the clock that showed it, and its text as
date, time and offset. The calendar is the proleptic Gregorian one, and a
leap second is the sixtieth of its minute.
-/

namespace DocStore

/-- **An instant** on a clock `offset` seconds east of universal time. From
`10 ^ 9` on, `nanos` lies in the leap second that follows `seconds`. -/
structure Timestamp where
  seconds : Int
  nanos : Nat
  offset : Int
  deriving DecidableEq

namespace Timestamp

/-- A date: year, month and day. -/
structure Date where
  year : Int
  month : Nat
  day : Nat
  deriving DecidableEq, Repr

/-- The date that many days after the first of January 1970. Years are counted
from March, so that the leap day comes last, in eras of 400 years. -/
def Date.ofDays (days : Int) : Date :=
  let shifted := days + 719468
  let era := shifted.fdiv 146097
  let dayOfEra := (shifted - era * 146097).toNat
  let yearOfEra := (dayOfEra - dayOfEra / 1460 + dayOfEra / 36524 - dayOfEra / 146096) / 365
  let dayOfYear := dayOfEra - (365 * yearOfEra + yearOfEra / 4 - yearOfEra / 100)
  let fromMarch := (5 * dayOfYear + 2) / 153
  let day := dayOfYear - (153 * fromMarch + 2) / 5 + 1
  let month := if fromMarch < 10 then fromMarch + 3 else fromMarch - 9
  let year := (yearOfEra : Int) + era * 400
  ⟨if month ≤ 2 then year + 1 else year, month, day⟩

/-- `n` in decimal, with zeros in front up to `width` digits. -/
def padded (width n : Nat) : String :=
  String.ofList ((Nat.toDigits 10 n).leftpad width '0')

/-- A year from 0 to 9999 has four digits; any other is signed. -/
def yearText (year : Int) : String :=
  if 0 ≤ year && year ≤ 9999 then padded 4 year.toNat
  else (if year < 0 then "-" else "+") ++ padded 4 year.natAbs

/-- The fraction of a second in milli-, micro- or nanoseconds, as needed. -/
def fractionText (nanos : Nat) : String :=
  if nanos = 0 then ""
  else if nanos % 1000000 = 0 then "." ++ padded 3 (nanos / 1000000)
  else if nanos % 1000 = 0 then "." ++ padded 6 (nanos / 1000)
  else "." ++ padded 9 nanos

/-- An offset in hours and minutes, to the nearest minute. -/
def offsetText (offset : Int) : String :=
  let minutes := (offset.natAbs + 30) / 60
  (if offset < 0 then "-" else "+") ++ padded 2 (minutes / 60) ++ ":" ++ padded 2 (minutes % 60)

/-- **The text of a timestamp**: date, `T`, time of day, offset. -/
def text (t : Timestamp) : String :=
  let shown := t.seconds + t.offset
  let date := Date.ofDays (shown.fdiv 86400)
  let ofDay := (shown.fmod 86400).toNat
  let leap := t.nanos / 1000000000
  yearText date.year ++ "-" ++ padded 2 date.month ++ "-" ++ padded 2 date.day ++ "T" ++
    padded 2 (ofDay / 3600) ++ ":" ++ padded 2 (ofDay / 60 % 60) ++ ":" ++
    padded 2 (ofDay % 60 + leap) ++ fractionText (t.nanos % 1000000000) ++ offsetText t.offset

/-- The same instant on the clock of universal time. -/
def toUniversal (t : Timestamp) : Timestamp := { t with offset := 0 }

/-- Whether two timestamps name the same instant, whatever their clocks show. -/
def sameInstant (s t : Timestamp) : Bool := s.seconds == t.seconds && s.nanos == t.nanos

end Timestamp

end DocStore
