import DocStore.Json.Reader.Value
import DocStore.Proofs.Json.Integers
import DocStore.Proofs.Json.Strings
/-!
# The layout of written JSON

The writer adds to the end of a text. What a value adds is a list of bytes of
its own, `Json.valueText`, that does not depend on what stands in front of it
(`bytes_write`). It opens with a byte that no reader passes over or takes for
the end of a list (`exists_valueText_cons`). Quotes change nothing about the digits
of a whole number (`stringText_repr`).
-/

namespace DocStore

namespace Json

mutual

/-- No number in the value is a float. -/
def FloatFree : Json → Prop
  | .number (.float ..) => False
  | .array items => FloatFreeAll items
  | .object members => FloatFreeMembers members
  | _ => True

/-- Every value of the list is `FloatFree`. -/
def FloatFreeAll : List Json → Prop
  | [] => True
  | v :: rest => FloatFree v ∧ FloatFreeAll rest

/-- Every member's value is `FloatFree`. -/
def FloatFreeMembers : List (String × Json) → Prop
  | [] => True
  | (_, v) :: rest => FloatFree v ∧ FloatFreeMembers rest

end

/-! ## What each value adds -/

/-- The bytes that start a line at the given level. -/
def newLineText (level : Nat) : List UInt8 := 0x0A :: List.replicate (4 * level) 0x20

/-- The bytes of a name in front of its value. -/
def nameText (name : String) : List UInt8 := stringText name ++ [0x3A, 0x20]

mutual

/-- **The bytes of a value** that stands at the given level. -/
def valueText (level : Nat) : Json → List UInt8
  | .null => 0x6E :: Reader.nullTail
  | .bool true => 0x74 :: Reader.trueTail
  | .bool false => 0x66 :: Reader.falseTail
  | .number n => Text.bytes n.text
  | .string s => stringText s
  | .array [] => [0x5B, 0x5D]
  | .array (v :: rest) =>
    0x5B :: (newLineText (level + 1) ++ (valueText (level + 1) v ++
      (itemsText (level + 1) rest ++ (newLineText level ++ [0x5D]))))
  | .object [] => [0x7B, 0x7D]
  | .object ((name, v) :: rest) =>
    0x7B :: (newLineText (level + 1) ++ (nameText name ++ (valueText (level + 1) v ++
      (membersText (level + 1) rest ++ (newLineText level ++ [0x7D])))))

/-- The bytes of the elements after the first. -/
def itemsText (level : Nat) : List Json → List UInt8
  | [] => []
  | v :: rest => 0x2C :: (newLineText level ++ (valueText level v ++ itemsText level rest))

/-- The bytes of the members after the first. -/
def membersText (level : Nat) : List (String × Json) → List UInt8
  | [] => []
  | (name, v) :: rest =>
    0x2C :: (newLineText level ++ (nameText name ++ (valueText level v ++ membersText level rest)))

end

theorem bytes_push_ascii (out : String) {c : Char} (h : c.toNat < 0x80) :
    Text.bytes (out.push c) = Text.bytes out ++ [UInt8.ofNat c.toNat] := by
  rw [Text.bytes_push, Text.utf8EncodeChar_of_lt h]

theorem bytes_newLine (out : String) (level : Nat) :
    Text.bytes (newLine out level) = Text.bytes out ++ newLineText level := by
  rw [newLine, Text.bytes_foldl_push, bytes_push_ascii out (c := '\n') (by decide),
    List.append_assoc, newLineText, List.flatMap_replicate]
  have hspace : String.utf8EncodeChar ' ' = [0x20] := by decide
  simp [hspace]

theorem bytes_name (out name : String) :
    Text.bytes (writeString out name ++ ": ") = Text.bytes out ++ nameText name := by
  rw [Text.bytes_append, bytes_writeString, List.append_assoc, nameText]
  rfl

mutual

/-- **A written value adds its bytes and no others.** -/
theorem bytes_write (level : Nat) (out : String) (v : Json) :
    Text.bytes (write level out v) = Text.bytes out ++ valueText level v := by
  match v with
  | .null => rw [write, Text.bytes_append, valueText]; rfl
  | .bool true => rw [write, Text.bytes_append, valueText]; rfl
  | .bool false => rw [write, Text.bytes_append, valueText]; rfl
  | .number n => rw [write, Text.bytes_append, valueText]
  | .string s => rw [write, bytes_writeString, valueText]
  | .array [] => rw [write, Text.bytes_append, valueText]; rfl
  | .array (v :: rest) =>
    rw [write, bytes_push_ascii _ (c := ']') (by decide), bytes_newLine, bytes_writeItems,
      bytes_write, bytes_newLine, bytes_push_ascii _ (c := '[') (by decide), valueText]
    simp
  | .object [] =>
    rw [write, bytes_push_ascii _ (c := '\x7d') (by decide),
      bytes_push_ascii _ (c := '\x7b') (by decide), valueText]
    simp
  | .object ((name, v) :: rest) =>
    rw [write, bytes_push_ascii _ (c := '\x7d') (by decide), bytes_newLine, bytes_writeMembers,
      bytes_write, bytes_name, bytes_newLine, bytes_push_ascii _ (c := '\x7b') (by decide),
      valueText]
    simp

theorem bytes_writeItems (level : Nat) (out : String) (vs : List Json) :
    Text.bytes (writeItems level out vs) = Text.bytes out ++ itemsText level vs := by
  match vs with
  | [] => simp [writeItems, itemsText]
  | v :: rest =>
    rw [writeItems, bytes_writeItems, bytes_write, bytes_newLine,
      bytes_push_ascii _ (c := ',') (by decide), itemsText]
    simp

theorem bytes_writeMembers (level : Nat) (out : String) (members : List (String × Json)) :
    Text.bytes (writeMembers level out members) = Text.bytes out ++ membersText level members := by
  match members with
  | [] => simp [writeMembers, membersText]
  | (name, v) :: rest =>
    rw [writeMembers, bytes_writeMembers, bytes_write, bytes_name, bytes_newLine,
      bytes_push_ascii _ (c := ',') (by decide), membersText]
    simp

end

theorem bytes_pretty (v : Json) : Text.bytes (pretty v) = valueText 0 v := by
  rw [pretty, bytes_write]
  rfl

/-! ## Numbers, and first bytes -/

/-- A whole number is written with a sign where it is negative. -/
theorem valueText_whole (level : Nat) (n : Int) (lower : -0x8000000000000000 ≤ n)
    (upper : n < 0x10000000000000000) :
    valueText level (.number (.whole n lower upper)) =
      if 0 ≤ n then Reader.digitBytes n.toNat else 0x2D :: Reader.digitBytes (-n).toNat := by
  rw [valueText, Number.text]
  cases n with
  | ofNat m => exact Reader.bytes_repr m
  | negSucc m =>
    have hrepr : (Int.negSucc m).repr = "-" ++ (m + 1).repr := rfl
    rw [hrepr, Text.bytes_append, Reader.bytes_repr]
    rfl

/-- A number in digits opens with a digit. -/
theorem exists_digitBytes_cons (n : Nat) :
    ∃ b bs, Reader.digitBytes n = b :: bs ∧ Reader.isDigit b = true := by
  cases hcs : Nat.toDigits 10 n with
  | nil => exact absurd hcs Nat.toDigits_ne_nil
  | cons c cs =>
    have hc : c.isDigit = true := Reader.isDigit_of_mem_toDigits (n := n) (by simp [hcs])
    exact ⟨_, _, by rw [Reader.digitBytes, hcs, List.map_cons], Reader.isDigit_digitByte hc⟩

theorem isSpace_eq_false_of_isDigit {b : UInt8} (h : Reader.isDigit b = true) :
    Reader.isSpace b = false ∧ b ≠ 0x5D := by
  constructor
  · by_contra hspace
    simp only [Reader.isSpace, Bool.not_eq_false, Bool.or_eq_true, beq_iff_eq] at hspace
    rcases hspace with ((rfl | rfl) | rfl) | rfl <;> exact absurd h (by decide)
  · rintro rfl
    exact absurd h (by decide)

/-- **A value opens with a byte of its own**: no space, and no closing bracket. -/
theorem exists_valueText_cons (level : Nat) {v : Json} (h : FloatFree v) :
    ∃ b bs, valueText level v = b :: bs ∧ Reader.isSpace b = false ∧ b ≠ 0x5D := by
  match v, h with
  | .null, _ => exact ⟨_, _, rfl, by decide, by decide⟩
  | .bool true, _ => exact ⟨_, _, rfl, by decide, by decide⟩
  | .bool false, _ => exact ⟨_, _, rfl, by decide, by decide⟩
  | .string s, _ => exact ⟨_, _, rfl, by decide, by decide⟩
  | .array [], _ => exact ⟨_, _, rfl, by decide, by decide⟩
  | .array (v :: rest), _ => exact ⟨_, _, by rw [valueText], by decide, by decide⟩
  | .object [], _ => exact ⟨_, _, rfl, by decide, by decide⟩
  | .object ((name, v) :: rest), _ => exact ⟨_, _, by rw [valueText], by decide, by decide⟩
  | .number (.whole n lower upper), _ =>
    rw [valueText_whole]
    split
    · obtain ⟨b, bs, hcons, hb⟩ := exists_digitBytes_cons n.toNat
      exact ⟨b, bs, hcons, isSpace_eq_false_of_isDigit hb⟩
    · exact ⟨_, _, rfl, by decide, by decide⟩

/-- Only null opens with the first letter of it. -/
theorem valueText_ne_null (level : Nat) {v : Json} (hfree : FloatFree v) (hv : v ≠ .null)
    (bs : List UInt8) :
    valueText level v ≠ 0x6E :: bs := by
  intro h
  match v, hfree with
  | .null, _ => exact hv rfl
  | .bool true, _ | .bool false, _ | .string s, _ => cases h
  | .array [], _ | .object [], _ => cases h
  | .array (v :: vs), _ | .object ((name, v) :: members), _ =>
    rw [valueText] at h
    cases h
  | .number (.whole n lower upper), _ =>
    rw [valueText_whole] at h
    split at h
    · obtain ⟨b, bs', hcons, hb⟩ := exists_digitBytes_cons n.toNat
      rw [hcons] at h
      obtain ⟨rfl, -⟩ := List.cons.inj h
      exact absurd hb (by decide)
    · cases h

/-! ## Whole numbers in quotes -/

/-- A digit or a sign stands in a string as it is. -/
theorem stringCharBytes_of_digit {c : Char} (h : c.isDigit = true ∨ c = '-') :
    stringCharBytes c = String.utf8EncodeChar c := by
  have hself : stringChar c = [c] := by
    have hcontrol : ¬ c.toNat < 0x20 := by
      rcases h with h | rfl
      · have hrange := Reader.toNat_le_of_isDigit h
        omega
      · decide
    rw [stringChar.eq_def]
    split
    case h_8 => rw [if_neg hcontrol]
    -- the characters that are escaped are neither
    all_goals exact absurd h (by decide)
  rw [stringCharBytes, hself, List.flatMap_singleton]

theorem digit_of_mem_repr {n : Int} {c : Char} (h : c ∈ n.repr.toList) :
    c.isDigit = true ∨ c = '-' := by
  cases n with
  | ofNat m =>
    have hdigits : c ∈ Nat.toDigits 10 m := by
      rw [← Nat.toList_repr]
      exact h
    exact Or.inl (Reader.isDigit_of_mem_toDigits hdigits)
  | negSucc m =>
    have hrepr : (Int.negSucc m).repr = "-" ++ (m + 1).repr := rfl
    rw [hrepr, String.toList_append, Nat.toList_repr] at h
    rcases List.mem_append.1 h with h | h
    · exact Or.inr (List.mem_singleton.1 h)
    · exact Or.inl (Reader.isDigit_of_mem_toDigits h)

/-- **A whole number stands in quotes as it stands alone.** -/
theorem stringText_repr {n : Int} (lower : -0x8000000000000000 ≤ n)
    (upper : n < 0x10000000000000000) (level : Nat) :
    stringText n.repr = 0x22 :: (valueText level (.number (.whole n lower upper)) ++ [0x22]) := by
  rw [stringText, valueText, Number.text, Text.bytes_eq_flatMap,
    List.flatMap_congr fun c hc => stringCharBytes_of_digit (digit_of_mem_repr hc)]

end Json

end DocStore
