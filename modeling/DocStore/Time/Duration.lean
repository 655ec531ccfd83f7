/-!
# Durations

A span of time in whole nanoseconds, and its text in the largest unit that
keeps the number at or above one.
-/

namespace DocStore

/-- **A span of time**: seconds and, below one second, nanoseconds. -/
structure Duration where
  seconds : UInt64
  nanos : Nat
  nanos_lt : nanos < 1000000000 := by omega
  deriving DecidableEq

namespace Duration

/-- The span of these seconds and nanoseconds, where whole seconds among the
nanoseconds are carried over. `none` when the seconds leave their range. -/
def ofParts? (seconds nanos : Nat) : Option Duration :=
  let total := seconds + nanos / 1000000000
  if total < 0x10000000000000000 then
    some ⟨UInt64.ofNat total, nanos % 1000000000, Nat.mod_lt _ (by decide)⟩
  else none

/-- `whole` and the fraction `part / 10 ^ places`, without zeros at the end. -/
def decimalText (whole part places : Nat) : String :=
  let padded := (Nat.toDigits 10 part).leftpad places '0'
  let kept := (padded.reverse.dropWhile (· == '0')).reverse
  String.ofList (Nat.toDigits 10 whole ++ if part = 0 then [] else '.' :: kept)

/-- **The text of a span**, in seconds, milli-, micro- or nanoseconds. -/
def text (d : Duration) : String :=
  if 0 < d.seconds then decimalText d.seconds.toNat d.nanos 9 ++ "s"
  else if 1000000 ≤ d.nanos then decimalText (d.nanos / 1000000) (d.nanos % 1000000) 6 ++ "ms"
  else if 1000 ≤ d.nanos then decimalText (d.nanos / 1000) (d.nanos % 1000) 3 ++ "µs"
  else decimalText d.nanos 0 0 ++ "ns"

/-- The span in seconds, the fraction added after it is rounded. -/
def totalSeconds (d : Duration) : Float :=
  d.seconds.toFloat + (UInt64.ofNat d.nanos).toFloat / 1000000000.0

end Duration

end DocStore
