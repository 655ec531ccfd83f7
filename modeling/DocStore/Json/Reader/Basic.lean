import DocStore.Json.Fault
import DocStore.Text.Utf8
/-!
# Readers

A `Reader` takes a value off the front of the bytes that are left of a
text. A fault names the place where it was noticed by how many bytes were
left: `stop` counts from the bytes given, `stopAt` lets the first of them
belong to the place, as befits a byte that was looked at and refused.
-/

namespace DocStore

/-- **A reader**: the value at the front of the bytes, and the bytes after it. -/
abbrev Reader (α : Type) := List UInt8 → Except Fault (α × List UInt8)

namespace Reader

variable {α : Type}

/-- Raises a cause in front of what is left. -/
def stop (cause : Cause) (left : List UInt8) : Except Fault α :=
  .error ⟨cause, left.length⟩

/-- Raises a cause on the first byte of what is left, or at the end. -/
def stopAt (cause : Cause) (left : List UInt8) : Except Fault α :=
  .error ⟨cause, left.length - 1⟩

/-- The four bytes that may stand between tokens. -/
def isSpace (b : UInt8) : Bool := b == 0x20 || b == 0x0A || b == 0x09 || b == 0x0D

/-- What is left behind the space at the front. -/
def skipSpace (left : List UInt8) : List UInt8 := left.dropWhile isSpace

/-- An ASCII digit. -/
def isDigit (b : UInt8) : Bool := 0x30 ≤ b && b ≤ 0x39

/-- The value of an ASCII digit. -/
def digitValue (b : UInt8) : Nat := b.toNat - 0x30

/-- Reads the given bytes one by one. -/
def word : List UInt8 → List UInt8 → Except Fault (List UInt8)
  | [], left => .ok left
  | _ :: _, [] => stop .endOfValue []
  | w :: word', b :: left => if b == w then word word' left else stop .noWord left

/-- The bytes of `ull`, after the first letter of `null`. -/
def nullTail : List UInt8 := [0x75, 0x6C, 0x6C]

/-- The bytes of `rue`, after the first letter of `true`. -/
def trueTail : List UInt8 := [0x72, 0x75, 0x65]

/-- The bytes of `alse`, after the first letter of `false`. -/
def falseTail : List UInt8 := [0x61, 0x6C, 0x73, 0x65]

/-- Reads the whole text, with space allowed around the value. -/
def whole (read : Reader α) (text : List UInt8) : Except ReadError α :=
  let result : Except Fault α := do
    let (value, left) ← read text
    match skipSpace left with
    | [] => pure value
    | left => stopAt .trailingCharacters left
  result.mapError (·.inText text)

end Reader

end DocStore
