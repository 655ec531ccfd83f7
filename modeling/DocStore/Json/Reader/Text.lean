import DocStore.Json.Reader.Basic
/-!
# Reading strings

Strings are read byte by byte from behind the opening quote. Whether the
bytes are well-formed UTF-8 is asked once, when the closing quote is read and
escapes are undone. If they are not, the place of the fault is counted back
from there by the bytes from the first malformed one on. Without an escape
among them that is the malformed byte itself; an escape, which is longer
than what it stands for, moves the place to the right.
-/

namespace DocStore

namespace Reader

/-- The value of a hexadecimal digit of either case. -/
def hexValue? (b : UInt8) : Option Nat :=
  if isDigit b then some (digitValue b)
  else if 0x41 ≤ b && b ≤ 0x46 then some (b.toNat - 0x41 + 10)
  else if 0x61 ≤ b && b ≤ 0x66 then some (b.toNat - 0x61 + 10)
  else none

/-- Reads four hexadecimal digits. -/
def hexFour (left : List UInt8) : Except Fault (Nat × List UInt8) :=
  match left with
  | a :: b :: c :: d :: left =>
    match hexValue? a, hexValue? b, hexValue? c, hexValue? d with
    | some a, some b, some c, some d => .ok (((a * 16 + b) * 16 + c) * 16 + d, left)
    | _, _, _, _ => stop .badEscape left
  | _ => stop .endOfString []

/-- The UTF-8 bytes of a code point, which is no surrogate. -/
def codePoint (n : Nat) : List UInt8 := String.utf8EncodeChar (Char.ofNat n)

/-- Reads one given byte of a second surrogate escape. -/
def surrogateByte (expected : UInt8) (left : List UInt8) : Except Fault (List UInt8) :=
  match left with
  | [] => stop .endOfString []
  | b :: left => if b == expected then .ok left else stop .unfinishedSurrogate left

/-- Reads a `u` escape from behind its letter. Code points past sixteen bits are
two escapes, the halves of a surrogate pair. -/
def unicodeEscape (left : List UInt8) : Except Fault (List UInt8 × List UInt8) := do
  let (n, left) ← hexFour left
  if 0xDC00 ≤ n && n ≤ 0xDFFF then stop .loneSurrogate left
  else if 0xD800 ≤ n && n ≤ 0xDBFF then
    let left ← surrogateByte 0x5C left
    let left ← surrogateByte 0x75 left
    let (m, left) ← hexFour left
    if 0xDC00 ≤ m && m ≤ 0xDFFF then
      pure (codePoint ((n - 0xD800) * 0x400 + (m - 0xDC00) + 0x10000), left)
    else stop .loneSurrogate left
  else pure (codePoint n, left)

/-- The byte that a one-letter escape stands for. -/
def escapedByte? (b : UInt8) : Option UInt8 :=
  match b.toNat with
  | 0x22 => some 0x22
  | 0x5C => some 0x5C
  | 0x2F => some 0x2F
  | 0x62 => some 0x08
  | 0x66 => some 0x0C
  | 0x6E => some 0x0A
  | 0x72 => some 0x0D
  | 0x74 => some 0x09
  | _ => none

/-- Reads an escape from behind its backslash. -/
def escape (left : List UInt8) : Except Fault (List UInt8 × List UInt8) :=
  match left with
  | [] => stop .endOfString []
  | b :: left =>
    match escapedByte? b with
    | some c => .ok ([c], left)
    | none => if b == 0x75 then unicodeEscape left else stop .badEscape left

/-- Reads up to the closing quote; `read` holds the bytes so far, the last one
first. The fuel bounds the bytes and escapes that are read. -/
def stringBytes : Nat → List UInt8 → List UInt8 → Except Fault (List UInt8 × List UInt8)
  | 0, _, left => stop .endOfString left
  | _ + 1, _, [] => stop .endOfString []
  | fuel + 1, read, b :: left =>
    if b == 0x22 then .ok (read.reverse, left)
    else if b == 0x5C then
      match escape left with
      | .ok (bytes, left) => stringBytes fuel (bytes.reverse ++ read) left
      | .error f => .error f
    else if b < 0x20 then stop .bareControl left
    else stringBytes fuel (b :: read) left

/-- **Reads a string** from behind its opening quote. -/
def string (left : List UInt8) : Except Fault (String × List UInt8) := do
  let (bytes, rest) ← stringBytes (left.length + 1) [] left
  match Text.ofBytes? bytes with
  | some s => pure (s, rest)
  | none =>
    let malformed := bytes.length - Text.wellFormedLength bytes.length bytes
    .error ⟨.badCodePoint, rest.length + malformed⟩

end Reader

end DocStore
