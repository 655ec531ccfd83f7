import DocStore.Text.Raw
import DocStore.Proofs.Text.Bytes
/-!
# Raw texts and what is shown of them

What is shown of a text in UTF-8 is that text. Of any other bytes it is at
least as long as they are, since a character that stands in has three bytes
and no broken one has more, and the bytes of ASCII in it are bytes that were
there.
-/

namespace DocStore

namespace Text

variable {b : UInt8} {bs : List UInt8} {s : String} {n fuel : Nat}

/-- **A text in UTF-8 is read back from its bytes.** -/
theorem ofBytes?_bytes (s : String) : ofBytes? (bytes s) = some s := by
  rw [bytes_eq_flatMap, ofBytes?_flatMap, String.ofList_toList]

/-- Bytes that are well formed are those of the text that they spell. -/
theorem bytes_of_ofBytes? (h : ofBytes? bs = some s) : bytes s = bs := by
  rw [ofBytes?, String.fromUTF8?] at h
  split at h
  · cases h
    rfl
  · cases h

/-- A character at the front is there in full, and well formed. -/
theorem frontLength?_eq_some (h : frontLength? bs = some n) :
    0 < n ∧ n ≤ bs.length ∧ ∃ s, ofBytes? (bs.take n) = some s := by
  have hn := List.find?_some h
  rw [Bool.and_eq_true, decide_eq_true_eq, Option.isSome_iff_exists] at hn
  have hmem := List.mem_of_find?_eq_some h
  simp only [List.mem_cons, List.not_mem_nil, or_false] at hmem
  exact ⟨by omega, hn⟩

/-- A broken character is no longer than what is shown for it. -/
theorem brokenLength_bounds (bs : List UInt8) : 0 < brokenLength bs ∧ brokenLength bs ≤ 3 := by
  rw [brokenLength]
  split
  · decide
  · split <;> decide

theorem utf8EncodeChar_replacement :
    String.utf8EncodeChar replacement = [0xEF, 0xBF, 0xBD] := by decide

/-- **One character more is shown** for some of the bytes in front: it is at
least as long as they are, and its bytes of ASCII are among them. -/
theorem shownChars_cons (fuel : Nat) (b : UInt8) (bs : List UInt8) :
    ∃ n cs, 0 < n ∧ shownChars (fuel + 1) (b :: bs) = cs ++ shownChars fuel ((b :: bs).drop n) ∧
      n ≤ (cs.flatMap String.utf8EncodeChar).length ∧
      ∀ x ∈ cs.flatMap String.utf8EncodeChar, x ∈ b :: bs ∨ 0x80 ≤ x.toNat := by
  rw [shownChars]
  cases hfront : frontLength? (b :: bs) with
  | some n =>
    obtain ⟨hpos, hn, s, hs⟩ := frontLength?_eq_some hfront
    have hbytes : s.toList.flatMap String.utf8EncodeChar = (b :: bs).take n := by
      rw [← bytes_eq_flatMap, bytes_of_ofBytes? hs]
    refine ⟨n, s.toList, hpos, by simp [hs], ?_, ?_⟩
    · rw [hbytes]
      exact Nat.le_of_eq (List.length_take_of_le hn).symm
    · rw [hbytes]
      exact fun x hx => Or.inl (List.mem_of_mem_take hx)
  | none =>
    obtain ⟨hpos, hthree⟩ := brokenLength_bounds (b :: bs)
    refine ⟨brokenLength (b :: bs), [replacement], hpos, rfl, ?_, ?_⟩
    · simpa [utf8EncodeChar_replacement] using hthree
    · intro x hx
      rw [List.flatMap_singleton, utf8EncodeChar_replacement] at hx
      simp only [List.mem_cons, List.not_mem_nil, or_false] at hx
      rcases hx with rfl | rfl | rfl <;> exact Or.inr (by decide)

/-- **What is shown for bytes is at least as long as they are.** -/
theorem length_le_shownChars (hfuel : bs.length ≤ fuel) :
    bs.length ≤ ((shownChars fuel bs).flatMap String.utf8EncodeChar).length := by
  induction fuel generalizing bs with
  | zero => omega
  | succ fuel ih =>
    cases bs with
    | nil => exact Nat.zero_le _
    | cons b bs =>
      obtain ⟨n, cs, hpos, hshown, hlength, -⟩ := shownChars_cons fuel b bs
      have hdropped : ((b :: bs).drop n).length ≤ fuel := by
        rw [List.length_drop]
        omega
      have hrest := ih hdropped
      rw [List.length_drop] at hrest
      rw [hshown, List.flatMap_append, List.length_append]
      omega

/-- Its bytes of ASCII were there. -/
theorem mem_of_mem_shownChars {x : UInt8}
    (hx : x ∈ (shownChars fuel bs).flatMap String.utf8EncodeChar) :
    x ∈ bs ∨ 0x80 ≤ x.toNat := by
  induction fuel generalizing bs with
  | zero => cases hx
  | succ fuel ih =>
    cases bs with
    | nil => cases hx
    | cons b bs =>
      obtain ⟨n, cs, -, hshown, -, hascii⟩ := shownChars_cons fuel b bs
      rw [hshown, List.flatMap_append, List.mem_append] at hx
      rcases hx with hx | hx
      · exact hascii x hx
      · exact (ih hx).imp_left List.mem_of_mem_drop

theorem length_le_shown (bs : List UInt8) : bs.length ≤ (shown bs).utf8ByteSize := by
  rw [← length_bytes, shown]
  split
  next s hs => exact Nat.le_of_eq (congrArg List.length (bytes_of_ofBytes? hs)).symm
  next =>
    rw [bytes_ofList]
    exact length_le_shownChars (Nat.le_refl _)

theorem mem_of_mem_shown {x : UInt8} (hx : x ∈ bytes (shown bs)) : x ∈ bs ∨ 0x80 ≤ x.toNat := by
  rw [shown] at hx
  split at hx
  next s hs =>
    rw [bytes_of_ofBytes? hs] at hx
    exact Or.inl hx
  next =>
    rw [bytes_ofList] at hx
    exact mem_of_mem_shownChars hx

end Text

namespace RawText

variable {r : RawText} {s : String} {x : UInt8}

/-- **A text is shown as it is.** -/
@[simp] theorem text_ofText (s : String) : (ofText s).text = s := by
  rw [text, ofText, Text.shown, Text.ofBytes?_bytes]

@[simp] theorem ofText_inj {s u : String} : ofText s = ofText u ↔ s = u :=
  ⟨fun h => by rw [← text_ofText s, h, text_ofText], congrArg ofText⟩

/-- **What is shown of a raw text is no shorter than the text.** -/
theorem size_le_text (r : RawText) : r.size ≤ r.text.utf8ByteSize := Text.length_le_shown r.bytes

/-- A byte of ASCII that is not in a raw text is not in what is shown of it. -/
theorem not_mem_text (hascii : x.toNat < 0x80) (h : x ∉ r.bytes) : x ∉ Text.bytes r.text :=
  fun hx => (Text.mem_of_mem_shown hx).elim h fun hle => absurd hascii (Nat.not_lt.2 hle)

end RawText

end DocStore
