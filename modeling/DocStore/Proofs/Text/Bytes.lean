import DocStore.Text.Utf8
import Mathlib.Data.List.Basic
/-!
# Texts and their bytes

`Text.bytes` turns the operations on texts into the same operations on lists
of bytes, character by character, and `Text.ofBytes?` undoes it. A character
is one byte below `0x80` and only bytes from `0x80` up above it, so that no
byte of ASCII is ever a part of another character.
-/

namespace DocStore

namespace Text

/-- The bytes of a text are the bytes of its characters. -/
theorem bytes_ofList (cs : List Char) :
    bytes (String.ofList cs) = cs.flatMap String.utf8EncodeChar := by
  simp [bytes, List.utf8Encode]

theorem bytes_eq_flatMap (s : String) : bytes s = s.toList.flatMap String.utf8EncodeChar := by
  rw [← bytes_ofList, String.ofList_toList]

@[simp] theorem bytes_append (s t : String) : bytes (s ++ t) = bytes s ++ bytes t := by
  simp [bytes_eq_flatMap]

@[simp] theorem bytes_push (s : String) (c : Char) :
    bytes (s.push c) = bytes s ++ String.utf8EncodeChar c := by
  simp [bytes_eq_flatMap]

theorem bytes_foldl_push (s : String) (cs : List Char) :
    bytes (cs.foldl String.push s) = bytes s ++ cs.flatMap String.utf8EncodeChar := by
  induction cs generalizing s with
  | nil => simp
  | cons c cs ih => simp [ih]

/-- **Bytes that spell characters are read back as those characters.** -/
theorem ofBytes?_flatMap (cs : List Char) :
    ofBytes? (cs.flatMap String.utf8EncodeChar) = some (String.ofList cs) := by
  have hbytes : (⟨(cs.flatMap String.utf8EncodeChar).toArray⟩ : ByteArray) =
      (String.ofList cs).toByteArray := by
    simp [ByteArray.ext_iff, List.utf8Encode]
  have hvalid := (String.ofList cs).isValidUTF8
  rw [ofBytes?, String.fromUTF8?, hbytes, dif_pos (by simpa using hvalid)]
  rfl

/-! ## One character -/

/-- A character of ASCII is the byte of its code point. -/
theorem utf8EncodeChar_of_lt {c : Char} (h : c.toNat < 0x80) :
    String.utf8EncodeChar c = [UInt8.ofNat c.toNat] := by
  have hle : c.val.toNat ≤ 0x7f := Nat.le_of_lt_succ h
  rw [String.utf8EncodeChar, if_pos hle]
  rfl

/-- A text of ASCII has one byte for each character. -/
theorem utf8ByteSize_of_ascii {cs : List Char} (h : ∀ c ∈ cs, c.toNat < 0x80) :
    (String.ofList cs).utf8ByteSize = cs.length := by
  rw [← length_bytes, bytes_ofList]
  induction cs with
  | nil => rfl
  | cons c rest ih =>
    obtain ⟨hc, hrest⟩ := List.forall_mem_cons.1 h
    rw [List.flatMap_cons, List.length_append, ih hrest, utf8EncodeChar_of_lt hc,
      List.length_singleton, List.length_cons, Nat.add_comm]

/-- Past ASCII no byte of a character is a byte of ASCII. -/
theorem le_of_mem_utf8EncodeChar {c : Char} (h : 0x80 ≤ c.toNat) {b : UInt8}
    (hb : b ∈ String.utf8EncodeChar c) : 0x80 ≤ b.toNat := by
  have hlt : ¬ c.val.toNat ≤ 0x7f := Nat.not_le_of_lt h
  rw [String.utf8EncodeChar, if_neg hlt] at hb
  split at hb
  · simp only [List.mem_cons, List.not_mem_nil, or_false] at hb
    rcases hb with rfl | rfl <;> rw [UInt8.toNat_ofNat'] <;> omega
  · split at hb
    · simp only [List.mem_cons, List.not_mem_nil, or_false] at hb
      rcases hb with rfl | rfl | rfl <;> rw [UInt8.toNat_ofNat'] <;> omega
    · simp only [List.mem_cons, List.not_mem_nil, or_false] at hb
      rcases hb with rfl | rfl | rfl | rfl <;> rw [UInt8.toNat_ofNat'] <;> omega

end Text

end DocStore
