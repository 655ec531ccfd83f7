import DocStore.Json.Reader.Number
import DocStore.Proofs.Text.Bytes
import Mathlib.Tactic.Cases
/-!
# JSON integers are read back

A whole number is written in decimal digits without a leading zero. Its
reader gathers digits as long as they fit 64 bits, and what they spell stays
below that bound from the first digit to the last, so no digit is dropped.
Whether it is a whole number at all depends on the byte behind it, which must
not go on with the number (`EndsNumber`).
-/

namespace DocStore

namespace Reader

/-- What is left does not go on with a number. -/
def EndsNumber (left : List UInt8) : Prop :=
  ∀ b ∈ left.head?, isDigit b = false ∧ b ≠ 0x2E ∧ b ≠ 0x65 ∧ b ≠ 0x45

/-- The byte of a digit. -/
def digitByte (c : Char) : UInt8 := UInt8.ofNat c.toNat

/-- The bytes of a natural number. -/
def digitBytes (n : Nat) : List UInt8 := (Nat.toDigits 10 n).map digitByte

variable {left : List UInt8} {c : Char}

theorem toNat_le_of_isDigit (h : c.isDigit = true) : 0x30 ≤ c.toNat ∧ c.toNat ≤ 0x39 := by
  simp only [Char.isDigit, Bool.and_eq_true, decide_eq_true_eq, ge_iff_le,
    UInt32.le_iff_toNat_le] at h
  exact h

theorem toNat_digitByte (h : c.isDigit = true) : (digitByte c).toNat = c.toNat := by
  have hrange := toNat_le_of_isDigit h
  rw [digitByte, UInt8.toNat_ofNat']
  omega

theorem isDigit_digitByte (h : c.isDigit = true) : isDigit (digitByte c) = true := by
  have hrange := toNat_le_of_isDigit h
  have hlow : (0x30 : UInt8).toNat = 0x30 := rfl
  have hhigh : (0x39 : UInt8).toNat = 0x39 := rfl
  simp only [isDigit, Bool.and_eq_true, decide_eq_true_eq, UInt8.le_iff_toNat_le,
    toNat_digitByte h]
  omega

theorem digitValue_digitByte (h : c.isDigit = true) :
    digitValue (digitByte c) = c.toNat - '0'.toNat := by
  rw [digitValue, toNat_digitByte h]
  rfl

theorem isDigit_of_mem_toDigits {n : Nat} (h : c ∈ Nat.toDigits 10 n) : c.isDigit = true :=
  Nat.isDigit_of_mem_toDigits (by decide) (by decide) h

/-- **A natural number is written as its digits.** -/
theorem bytes_repr (n : Nat) : Text.bytes n.repr = digitBytes n := by
  rw [Text.bytes_eq_flatMap, Nat.toList_repr, digitBytes, List.map_eq_flatMap]
  refine List.flatMap_congr fun c hc => ?_
  have hrange := toNat_le_of_isDigit (isDigit_of_mem_toDigits hc)
  exact Text.utf8EncodeChar_of_lt (by omega)

/-! ## Gathering digits -/

/-- Digits only add to what was gathered before them. -/
theorem le_ofDigitChars (cs : List Char) (n : Nat) : n ≤ Nat.ofDigitChars 10 cs n := by
  induction cs generalizing n with
  | nil => simp
  | cons c cs ih =>
    rw [Nat.ofDigitChars_cons]
    have := ih (10 * n + (c.toNat - '0'.toNat))
    omega

/-- **All digits are gathered** where what they spell fits 64 bits. -/
theorem wholeDigits_append {cs : List Char} (hdigits : ∀ c ∈ cs, c.isDigit = true) {n : Nat}
    (hlt : Nat.ofDigitChars 10 cs n < significandLimit) (hend : EndsNumber left) :
    wholeDigits n (cs.map digitByte ++ left) = (Nat.ofDigitChars 10 cs n, 0, left) := by
  induction cs generalizing n with
  | nil =>
    cases left with
    | nil => rfl
    | cons b left =>
      have hb := (hend b rfl).1
      simp [wholeDigits, hb]
  | cons c cs ih =>
    obtain ⟨hc, hcs⟩ := List.forall_mem_cons.1 hdigits
    rw [Nat.ofDigitChars_cons] at hlt ⊢
    have hnext : n * 10 + digitValue (digitByte c) = 10 * n + (c.toNat - '0'.toNat) := by
      rw [digitValue_digitByte hc]
      omega
    -- what is gathered so far is no more than the whole
    have hfits := Nat.lt_of_le_of_lt (le_ofDigitChars cs _) hlt
    rw [List.map_cons, List.cons_append, wholeDigits, if_pos (isDigit_digitByte hc)]
    simp only [hnext]
    rw [if_pos hfits, ih hcs hlt]

/-- Only zero starts with a zero. -/
theorem exists_toDigits_cons {n : Nat} (hn : 0 < n) :
    ∃ c cs, Nat.toDigits 10 n = c :: cs ∧ c ≠ '0' := by
  induction n using Nat.strongRecOn with
  | ind n ih =>
    rcases Nat.lt_or_ge n 10 with hlt | hge
    · rw [Nat.toDigits_of_lt_base hlt]
      refine ⟨_, _, rfl, ?_⟩
      have hall : ∀ d < 10, 0 < d → Nat.digitChar d ≠ '0' := by decide
      exact hall n hlt hn
    · obtain ⟨c, cs, hcons, hc⟩ := ih (n / 10) (by omega) (by omega)
      rw [Nat.toDigits_of_base_le (by decide) hge, hcons]
      exact ⟨c, _, rfl, hc⟩

/-- Where no fraction and no exponent follows, the number is whole. -/
theorem afterWhole_of_ends (negative : Bool) (n : Nat) (hend : EndsNumber left) :
    afterWhole negative n 0 left = wholeOfParts negative n left := by
  cases left with
  | nil => rfl
  | cons b left =>
    obtain ⟨-, hpoint, he, hE⟩ := hend b rfl
    simp [afterWhole, hpoint, he, hE]

/-- **The digits of a number within 64 bits are read as that number.** -/
theorem number_digitBytes (negative : Bool) {n : Nat} (hlt : n < significandLimit)
    (hend : EndsNumber left) :
    number negative (digitBytes n ++ left) = wholeOfParts negative n left := by
  rcases Nat.eq_zero_or_pos n with rfl | hpos
  · rw [digitBytes, Nat.toDigits_zero, ← afterWhole_of_ends negative 0 hend]
    cases left with
    | nil => rfl
    | cons b left =>
      have hb := (hend b rfl).1
      simp [number, digitByte, hb]
  · obtain ⟨c, cs, hcons, hc⟩ := exists_toDigits_cons hpos
    have hdigits : ∀ d ∈ c :: cs, d.isDigit = true :=
      fun d hd => isDigit_of_mem_toDigits (n := n) (hcons ▸ hd)
    obtain ⟨hcdigit, hcs⟩ := List.forall_mem_cons.1 hdigits
    have hvalue : Nat.ofDigitChars 10 cs (digitValue (digitByte c)) = n := by
      have hall := Nat.ofDigitChars_ten_toDigits (n := n)
      rwa [hcons, Nat.ofDigitChars_cons, Nat.mul_zero, Nat.zero_add, ← digitValue_digitByte hcdigit]
        at hall
    have hnonzero : digitByte c ≠ 0x30 := by
      intro heq
      have hval := toNat_digitByte hcdigit
      rw [heq] at hval
      exact hc (Char.toNat_inj.1 hval.symm)
    rw [digitBytes, hcons, List.map_cons, List.cons_append, number.eq_def]
    simp only [beq_iff_eq, hnonzero, if_false, isDigit_digitByte hcdigit, if_true,
      wholeDigits_append hcs (by rwa [hvalue]) hend, hvalue]
    exact afterWhole_of_ends negative n hend

/-! ## Whole numbers -/

/-- A number without a sign is whole up to 64 bits. -/
theorem wholeOfParts_nonneg {n : Nat} (lower : -0x8000000000000000 ≤ (n : Int))
    (upper : (n : Int) < 0x10000000000000000) (left : List UInt8) :
    wholeOfParts false n left = .ok (.whole n lower upper, left) := by
  have hrange : -0x8000000000000000 ≤ (n : Int) ∧ (n : Int) < 0x10000000000000000 := ⟨lower, upper⟩
  simp [wholeOfParts, hrange]

/-- A number with a sign that is not zero is whole down to 63 bits. -/
theorem wholeOfParts_neg {n : Nat} (hpos : 0 < n) (lower : -0x8000000000000000 ≤ -(n : Int))
    (upper : -(n : Int) < 0x10000000000000000) (left : List UInt8) :
    wholeOfParts true n left = .ok (.whole (-(n : Int)) lower upper, left) := by
  have hrange : -0x8000000000000000 ≤ -(n : Int) ∧ -(n : Int) < 0x10000000000000000 :=
    ⟨lower, upper⟩
  have hne : n ≠ 0 := Nat.ne_of_gt hpos
  simp [wholeOfParts, hrange, hne]

end Reader

end DocStore
