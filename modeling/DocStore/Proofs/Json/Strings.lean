import DocStore.Json.Reader.Text
import DocStore.Json.Writer
import DocStore.Proofs.Text.Bytes
/-!
# JSON strings are read back

A string is written character by character: quotes, backslashes and controls
as escapes, all else as it is. Its reader goes byte by byte. What ties the
two together is `stringBytes_stringChar`: over the bytes of one written
character the reader moves on by the bytes of that character itself. The
closing quote is met only where it was written, since inside a character past
ASCII there is no byte that looks like one.
-/

namespace DocStore

namespace Json

/-- The bytes of a character as it stands inside a JSON string. -/
def stringCharBytes (c : Char) : List UInt8 := (stringChar c).flatMap String.utf8EncodeChar

/-- The bytes of a JSON string, with its quotes. -/
def stringText (s : String) : List UInt8 := 0x22 :: (s.toList.flatMap stringCharBytes ++ [0x22])

/-- **A written string adds its bytes and no others.** -/
theorem bytes_writeString (out s : String) :
    Text.bytes (writeString out s) = Text.bytes out ++ stringText s := by
  have hchars : ∀ (cs : List Char) (out : String),
      Text.bytes (cs.foldl (fun out c => (stringChar c).foldl String.push out) out) =
        Text.bytes out ++ cs.flatMap stringCharBytes := by
    intro cs
    induction cs with
    | nil => simp
    | cons c cs ih => intro out; simp [ih, Text.bytes_foldl_push, stringCharBytes]
  rw [writeString, Text.bytes_push, hchars, Text.bytes_push,
    Text.utf8EncodeChar_of_lt (c := '"') (by decide)]
  simp [stringText]

end Json

namespace Reader

/-- A byte that a string holds as it is. -/
def IsPlain (b : UInt8) : Prop := b ≠ 0x22 ∧ b ≠ 0x5C ∧ ¬ b < 0x20

/-- The reader takes over bytes that stand for themselves. -/
theorem stringBytes_plain (fuel : Nat) (read left : List UInt8) {bs : List UInt8}
    (h : ∀ b ∈ bs, IsPlain b) :
    stringBytes (fuel + bs.length) read (bs ++ left) =
      stringBytes fuel (bs.reverse ++ read) left := by
  induction bs generalizing read with
  | nil => rfl
  | cons b bs ih =>
    obtain ⟨⟨hquote, hslash, hcontrol⟩, hrest⟩ := List.forall_mem_cons.1 h
    rw [List.length_cons, ← Nat.add_assoc, List.cons_append, stringBytes,
      if_neg (by simpa using hquote), if_neg (by simpa using hslash), if_neg hcontrol, ih _ hrest,
      List.reverse_cons, List.append_assoc, List.singleton_append]

/-- The reader takes over what an escape stands for. -/
theorem stringBytes_escape (fuel : Nat) (read : List UInt8) {left bytes rest : List UInt8}
    (h : escape left = .ok (bytes, rest)) :
    stringBytes (fuel + 1) read (0x5C :: left) = stringBytes fuel (bytes.reverse ++ read) rest := by
  rw [stringBytes, if_neg (by decide), if_pos (by decide), h]

/-! ## Escapes -/

/-- A hexadecimal digit is read as its value. -/
theorem hexValue?_digitChar {d : Nat} (h : d < 16) :
    hexValue? (UInt8.ofNat (Nat.digitChar d).toNat) = some d := by
  have hall : ∀ d < 16, hexValue? (UInt8.ofNat (Nat.digitChar d).toNat) = some d := by decide
  exact hall d h

/-- A hexadecimal digit is one byte. -/
theorem utf8EncodeChar_digitChar {d : Nat} (h : d < 16) :
    String.utf8EncodeChar (Nat.digitChar d) = [UInt8.ofNat (Nat.digitChar d).toNat] := by
  have hall : ∀ d < 16, (Nat.digitChar d).toNat < 0x80 := by decide
  exact Text.utf8EncodeChar_of_lt (hall d h)

/-- **The four digits of a control stand for that control.** -/
theorem escape_control {c : Char} (h : c.toNat < 0x20) (left : List UInt8) :
    escape (0x75 :: 0x30 :: 0x30 :: UInt8.ofNat (Nat.digitChar (c.toNat / 16)).toNat ::
      UInt8.ofNat (Nat.digitChar (c.toNat % 16)).toNat :: left) =
      .ok (String.utf8EncodeChar c, left) := by
  have hvalue : hexFour (0x30 :: 0x30 :: UInt8.ofNat (Nat.digitChar (c.toNat / 16)).toNat ::
      UInt8.ofNat (Nat.digitChar (c.toNat % 16)).toNat :: left) = .ok (c.toNat, left) := by
    have hzero : hexValue? 0x30 = some 0 := by decide
    rw [hexFour, hzero, hexValue?_digitChar (by omega), hexValue?_digitChar (by omega)]
    have hsum : ((0 * 16 + 0) * 16 + c.toNat / 16) * 16 + c.toNat % 16 = c.toNat := by omega
    simp only [hsum]
  rw [escape, show escapedByte? 0x75 = none by decide]
  simp only [beq_self_eq_true, if_true]
  rw [unicodeEscape, hvalue]
  have hlow : ¬ 0xDC00 ≤ c.toNat := by omega
  have hhigh : ¬ 0xD800 ≤ c.toNat := by omega
  simp [bind, Except.bind, hlow, hhigh, codePoint, pure, Except.pure]

/-! ## Characters and strings -/

/-- Past ASCII every byte of a character is plain. -/
theorem isPlain_of_mem_utf8EncodeChar {c : Char} (hquote : c ≠ '"') (hslash : c ≠ '\\')
    (hcontrol : ¬ c.toNat < 0x20) {b : UInt8} (hb : b ∈ String.utf8EncodeChar c) : IsPlain b := by
  rcases Nat.lt_or_ge c.toNat 0x80 with hlt | hge
  · rw [Text.utf8EncodeChar_of_lt hlt, List.mem_singleton] at hb
    have hval : b.toNat = c.toNat := by rw [hb, UInt8.toNat_ofNat']; omega
    refine ⟨?_, ?_, ?_⟩
    · rintro rfl
      exact hquote (Char.toNat_inj.1 hval.symm)
    · rintro rfl
      exact hslash (Char.toNat_inj.1 hval.symm)
    · rw [UInt8.lt_iff_toNat_lt, hval]
      exact hcontrol
  · have hle := Text.le_of_mem_utf8EncodeChar hge hb
    refine ⟨?_, ?_, ?_⟩
    · rintro rfl
      exact absurd hle (by decide)
    · rintro rfl
      exact absurd hle (by decide)
    · rw [UInt8.lt_iff_toNat_lt]
      have hlow : (0x20 : UInt8).toNat = 0x20 := rfl
      omega

/-- How one written character is taken over: as an escape, or byte by byte. -/
theorem stringCharBytes_cases (c : Char) :
    (∃ bs, Json.stringCharBytes c = 0x5C :: bs ∧
      ∀ left, escape (bs ++ left) = .ok (String.utf8EncodeChar c, left)) ∨
    (Json.stringCharBytes c = String.utf8EncodeChar c ∧
      ∀ b ∈ String.utf8EncodeChar c, IsPlain b) := by
  -- an escape of one letter, one of four digits, or none
  by_cases hletter : c ∈ ['"', '\\', '\x08', '\x0c', '\n', '\r', '\t']
  · left
    simp only [List.mem_cons, List.not_mem_nil, or_false] at hletter
    rcases hletter with rfl | rfl | rfl | rfl | rfl | rfl | rfl
    all_goals exact ⟨_, rfl, fun left => rfl⟩
  · simp only [List.mem_cons, List.not_mem_nil, or_false, not_or] at hletter
    obtain ⟨hquote, hslash, hb, hf, hn, hr, ht⟩ := hletter
    have hform : Json.stringChar c = if c.toNat < 0x20 then
        ['\\', 'u', '0', '0', Nat.digitChar (c.toNat / 16), Nat.digitChar (c.toNat % 16)]
        else [c] := by
      rw [Json.stringChar] <;> assumption
    by_cases hcontrol : c.toNat < 0x20
    · left
      refine ⟨[0x75, 0x30, 0x30, UInt8.ofNat (Nat.digitChar (c.toNat / 16)).toNat,
        UInt8.ofNat (Nat.digitChar (c.toNat % 16)).toNat], ?_, escape_control hcontrol⟩
      rw [Json.stringCharBytes, hform, if_pos hcontrol]
      simp only [List.flatMap_cons, List.flatMap_nil, List.append_nil]
      rw [utf8EncodeChar_digitChar (by omega), utf8EncodeChar_digitChar (by omega)]
      rfl
    · right
      refine ⟨?_, fun b => isPlain_of_mem_utf8EncodeChar hquote hslash hcontrol⟩
      rw [Json.stringCharBytes, hform, if_neg hcontrol]
      simp

/-- **Over one written character the reader moves on by its bytes**, with fuel
to spare for what is left. -/
theorem stringBytes_stringChar (c : Char) {fuel : Nat} (read left : List UInt8)
    (h : (Json.stringCharBytes c ++ left).length < fuel) :
    ∃ fuel', left.length < fuel' ∧
      stringBytes fuel read (Json.stringCharBytes c ++ left) =
        stringBytes fuel' ((String.utf8EncodeChar c).reverse ++ read) left := by
  rcases stringCharBytes_cases c with ⟨bs, hbytes, hescape⟩ | ⟨hbytes, hplain⟩
  · rw [hbytes, List.length_append, List.length_cons] at h
    refine ⟨fuel - 1, by omega, ?_⟩
    obtain ⟨fuel, rfl⟩ : ∃ n, fuel = n + 1 := ⟨fuel - 1, by omega⟩
    rw [hbytes, List.cons_append, stringBytes_escape _ _ (hescape left), Nat.add_sub_cancel]
  · rw [hbytes, List.length_append] at h
    refine ⟨fuel - (String.utf8EncodeChar c).length, by omega, ?_⟩
    obtain ⟨n, rfl⟩ : ∃ n, fuel = n + (String.utf8EncodeChar c).length :=
      ⟨fuel - (String.utf8EncodeChar c).length, by omega⟩
    rw [hbytes, stringBytes_plain _ _ _ hplain, Nat.add_sub_cancel]

/-- Up to the closing quote the reader gathers the bytes of all characters. -/
theorem stringBytes_flatMap (cs : List Char) {fuel : Nat} (read rest : List UInt8)
    (h : (cs.flatMap Json.stringCharBytes ++ 0x22 :: rest).length < fuel) :
    stringBytes fuel read (cs.flatMap Json.stringCharBytes ++ 0x22 :: rest) =
      .ok (read.reverse ++ cs.flatMap String.utf8EncodeChar, rest) := by
  induction cs generalizing fuel read with
  | nil =>
    obtain ⟨fuel, rfl⟩ : ∃ n, fuel = n + 1 := ⟨fuel - 1, by omega⟩
    simp [stringBytes]
  | cons c cs ih =>
    rw [List.flatMap_cons, List.append_assoc] at h ⊢
    obtain ⟨fuel', hfuel, hstep⟩ := stringBytes_stringChar c read _ h
    rw [hstep, ih _ hfuel]
    simp

/-- **A written string is read back**, whatever follows it. -/
theorem string_stringText (s : String) (rest : List UInt8) :
    string ((Json.stringText s).drop 1 ++ rest) = .ok (s, rest) := by
  have hleft : (Json.stringText s).drop 1 ++ rest =
      s.toList.flatMap Json.stringCharBytes ++ 0x22 :: rest := by
    simp [Json.stringText]
  rw [hleft, string, stringBytes_flatMap _ _ _ (Nat.lt_succ_self _)]
  simp [bind, Except.bind, Text.ofBytes?_flatMap, pure, Except.pure]

end Reader

end DocStore
