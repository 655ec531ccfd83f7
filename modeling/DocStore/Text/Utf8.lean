/-!
# Texts as bytes

A text and its bytes in UTF-8, how far bytes are well formed, and the text
that is shown for bytes that are not.
-/

namespace DocStore

namespace Text

/-- The bytes of a text in UTF-8. -/
def bytes (s : String) : List UInt8 := s.toUTF8.data.toList

/-- A text has as many bytes as its size says. -/
theorem length_bytes (s : String) : (bytes s).length = s.utf8ByteSize := rfl

/-- The text whose UTF-8 bytes these are, if they are well formed. -/
def ofBytes? (bs : List UInt8) : Option String := String.fromUTF8? ⟨bs.toArray⟩

/-- The length of the character at the front: the fewest bytes that are well
formed. -/
def frontLength? (bs : List UInt8) : Option Nat :=
  [1, 2, 3, 4].find? fun n => n ≤ bs.length && (ofBytes? (bs.take n)).isSome

/-- **How many bytes in front are well formed**, counting up to `fuel`
characters. -/
def wellFormedLength : (fuel : Nat) → List UInt8 → Nat
  | 0, _ => 0
  | fuel + 1, bs =>
    match frontLength? bs with
    | some n => n + wellFormedLength fuel (bs.drop n)
    | none => 0

/-! ## Bytes that are not well formed -/

/-- What is shown for a character that is broken. -/
def replacement : Char := '\uFFFD'

/-- Whether further bytes could complete these to a character. -/
def isBegun (bs : List UInt8) : Bool :=
  (ofBytes? (bs ++ [0x80])).isSome || (ofBytes? (bs ++ [0x80, 0x80])).isSome

/-- **The length of a broken character at the front**: as many bytes as further
ones could complete, and one at least. -/
def brokenLength (bs : List UInt8) : Nat :=
  if 3 ≤ bs.length && isBegun (bs.take 3) then 3
  else if 2 ≤ bs.length && isBegun (bs.take 2) then 2
  else 1

/-- The characters of bytes, up to `fuel` of them, each broken one replaced. -/
def shownChars : (fuel : Nat) → List UInt8 → List Char
  | 0, _ => []
  | _ + 1, [] => []
  | fuel + 1, b :: bs =>
    match frontLength? (b :: bs) with
    | some n => ((ofBytes? ((b :: bs).take n)).elim [] String.toList) ++
        shownChars fuel ((b :: bs).drop n)
    | none => replacement :: shownChars fuel ((b :: bs).drop (brokenLength (b :: bs)))

/-- **The text that is shown for bytes**: the text that they are, or the one with
each broken character replaced. -/
def shown (bs : List UInt8) : String :=
  match ofBytes? bs with
  | some s => s
  | none => String.ofList (shownChars bs.length bs)

end Text

end DocStore
