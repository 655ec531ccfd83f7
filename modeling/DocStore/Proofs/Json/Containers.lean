import DocStore.Proofs.Json.Layout
import Mathlib.Data.List.Forall2
/-!
# Written containers are read part by part

A list or an object is read back whole by whatever reads its parts: if each element
that was written is taken by the reader of elements (`Reads`), the list is read as what
the elements were read as (`items_of_reads`); and if each member that was written takes
the reader of members from one state to the next (`ReadsMembers`), the object is read
as the last state (`fields_of_reads`). What the parts are read as is left open, so that
JSON values and values of other types are read by one argument.
-/

namespace DocStore

namespace Reader

variable {α σ : Type} {left rest : List UInt8}

/-! ## Space and brackets -/

theorem skipSpace_cons {b : UInt8} (h : isSpace b = false) : skipSpace (b :: left) = b :: left := by
  simp [skipSpace, h]

theorem skipSpace_space (left : List UInt8) : skipSpace (0x20 :: left) = skipSpace left := by
  simp [skipSpace, show isSpace 0x20 = true by decide]

theorem skipSpace_newLineText (level : Nat) (left : List UInt8) :
    skipSpace (Json.newLineText level ++ left) = skipSpace left := by
  have hspaces : ∀ n, skipSpace (List.replicate n 0x20 ++ left) = skipSpace left := by
    intro n
    induction n with
    | zero => rfl
    | succ n ih => rw [List.replicate_succ, List.cons_append, skipSpace_space, ih]
  rw [Json.newLineText, List.cons_append, ← hspaces (4 * level)]
  simp [skipSpace, show isSpace 0x0A = true by decide]

/-- What follows a value inside a container ends a number. -/
theorem endsNumber_cons {b : UInt8} (h : b = 0x2C ∨ b = 0x0A) : EndsNumber (b :: left) := by
  intro c hc
  obtain rfl : b = c := by simpa using hc
  rcases h with rfl | rfl <;> decide

/-! ## Lists -/

section Items

variable {item : Reader α}

theorem itemsFrom_close {fuel : Nat} (first : Bool) (read : List α)
    (h : skipSpace left = 0x5D :: rest) :
    itemsFrom item (fuel + 1) first read left = .ok (read.reverse, rest) := by
  rw [itemsFrom.eq_def]
  simp [h]

theorem itemsFrom_first {fuel : Nat} {b : UInt8} {tail : List UInt8} {v : α}
    (h : skipSpace left = b :: tail) (hb : b ≠ 0x5D) (hitem : item (b :: tail) = .ok (v, rest)) :
    itemsFrom item (fuel + 1) true [] left = itemsFrom item fuel false [v] rest := by
  rw [itemsFrom.eq_def]
  simp [h, hb, hitem]

theorem itemsFrom_next {fuel : Nat} {read : List α} {b : UInt8} {tail : List UInt8} {v : α}
    (h : skipSpace left = b :: tail) (hb : b ≠ 0x5D) (hitem : item (b :: tail) = .ok (v, rest)) :
    itemsFrom item (fuel + 1) false read (0x2C :: left) =
      itemsFrom item fuel false (v :: read) rest := by
  rw [itemsFrom.eq_def]
  simp [skipSpace_cons (b := 0x2C) (by decide), h, hb, hitem]

end Items

/-! ## Objects -/

section Fields

variable {entry : σ → Reader σ}

theorem fieldsFrom_close {fuel : Nat} (first : Bool) (state : σ)
    (h : skipSpace left = 0x7D :: rest) :
    fieldsFrom entry (fuel + 1) first state left = .ok (state, rest) := by
  rw [fieldsFrom.eq_def]
  simp [h]

theorem fieldsFrom_first {fuel : Nat} {state next : σ} {tail : List UInt8}
    (h : skipSpace left = 0x22 :: tail) (hentry : entry state (0x22 :: tail) = .ok (next, rest)) :
    fieldsFrom entry (fuel + 1) true state left = fieldsFrom entry fuel false next rest := by
  rw [fieldsFrom.eq_def]
  simp [h, hentry]

theorem fieldsFrom_next {fuel : Nat} {state next : σ} {tail : List UInt8}
    (h : skipSpace left = 0x22 :: tail) (hentry : entry state (0x22 :: tail) = .ok (next, rest)) :
    fieldsFrom entry (fuel + 1) false state (0x2C :: left) =
      fieldsFrom entry fuel false next rest := by
  rw [fieldsFrom.eq_def]
  simp [skipSpace_cons (b := 0x2C) (by decide), h, hentry]

end Fields

/-- Behind the opening quote a name is read as any string, up to its colon. -/
theorem string_nameText (name : String) (left : List UInt8) :
    string ((Json.nameText name ++ left).drop 1) = .ok (name, 0x3A :: 0x20 :: left) := by
  have hname : (Json.nameText name ++ left).drop 1 =
      (Json.stringText name).drop 1 ++ (0x3A :: 0x20 :: left) := by
    simp [Json.nameText, Json.stringText]
  rw [hname, string_stringText]

theorem colon_cons (left : List UInt8) : colon (0x3A :: left) = .ok left := by
  simp [colon, skipSpace_cons (b := 0x3A) (by decide)]

end Reader

namespace Json

theorem length_le_itemsText (level : Nat) (vs : List Json) :
    vs.length ≤ (itemsText level vs).length := by
  induction vs with
  | nil => exact Nat.zero_le _
  | cons v vs ih =>
    simp only [itemsText, List.length_cons, List.length_append]
    omega

theorem length_le_membersText (level : Nat) (members : List (String × Json)) :
    members.length ≤ (membersText level members).length := by
  induction members with
  | nil => exact Nat.zero_le _
  | cons m members ih =>
    simp only [membersText, List.length_cons, List.length_append]
    omega

/-- Behind an element there is a comma or what closes the list. -/
theorem endsNumber_itemsText (level : Nat) (vs : List Json) {closing : List UInt8}
    (h : Reader.EndsNumber closing) : Reader.EndsNumber (itemsText level vs ++ closing) := by
  cases vs with
  | nil => exact h
  | cons v vs => exact Reader.endsNumber_cons (Or.inl rfl)

theorem endsNumber_membersText (level : Nat) (members : List (String × Json))
    {closing : List UInt8} (h : Reader.EndsNumber closing) :
    Reader.EndsNumber (membersText level members ++ closing) := by
  cases members with
  | nil => exact h
  | cons m members => exact Reader.endsNumber_cons (Or.inl rfl)

/-- A value is what is left behind the space in front of it. -/
theorem skipSpace_valueText (level : Nat) {v : Json} (h : FloatFree v) (rest : List UInt8) :
    ∃ b tail, valueText level v ++ rest = b :: tail ∧
      Reader.skipSpace (valueText level v ++ rest) = b :: tail ∧ b ≠ 0x5D := by
  obtain ⟨b, bs, hcons, hspace, hb⟩ := exists_valueText_cons level h
  refine ⟨b, bs ++ rest, by rw [hcons, List.cons_append], ?_, hb⟩
  rw [hcons, List.cons_append, Reader.skipSpace_cons hspace]

end Json

namespace Reader

/-! ## Readers of parts -/

/-- **A reader takes a written value** as something, space in front or not, where what
follows does not go on with a number. -/
def Reads (read : Reader α) (level : Nat) (v : Json) (x : α) : Prop :=
  ∀ left rest, skipSpace left = Json.valueText level v ++ rest → EndsNumber rest →
    read left = .ok (x, rest)

/-- A value that is taken is taken where it stands, and behind the space that follows a
colon. -/
theorem Reads.read_valueText {read : Reader α} {level : Nat} {v : Json} {x : α}
    (h : Reads read level v x) (hfree : v.FloatFree) (hend : EndsNumber rest) :
    read (Json.valueText level v ++ rest) = .ok (x, rest) ∧
      read (0x20 :: (Json.valueText level v ++ rest)) = .ok (x, rest) := by
  obtain ⟨b, tail, hcons, hskip, -⟩ := Json.skipSpace_valueText level hfree rest
  have hself : skipSpace (Json.valueText level v ++ rest) = Json.valueText level v ++ rest := by
    rw [hskip, hcons]
  exact ⟨h _ _ hself hend, h _ _ (by rw [skipSpace_space, hself]) hend⟩

/-- **A reader of members takes written members** from one state to another, each from
the opening quote of its name to the end of its value. -/
inductive ReadsMembers (entry : σ → Reader σ) (level : Nat) :
    σ → List (String × Json) → σ → Prop
  | nil (s : σ) : ReadsMembers entry level s [] s
  | cons {s next last : σ} {name : String} {v : Json} {members : List (String × Json)} :
      (∀ rest, EndsNumber rest →
        entry s (Json.nameText name ++ (Json.valueText level v ++ rest)) = .ok (next, rest)) →
      ReadsMembers entry level next members last →
      ReadsMembers entry level s ((name, v) :: members) last

/-! ## Whole containers -/

variable {item : Reader α} {entry : σ → Reader σ} {level : Nat}

/-- The elements behind those that were read. -/
theorem itemsFrom_of_reads {vs : List Json} {xs : List α}
    (h : List.Forall₂ (Reads item level) vs xs) (hfree : Json.FloatFreeAll vs) (read : List α)
    {fuel : Nat} {closing : List UInt8} (hfuel : vs.length < fuel)
    (hclose : skipSpace closing = 0x5D :: rest) (hclosing : EndsNumber closing) :
    itemsFrom item fuel false read (Json.itemsText level vs ++ closing) =
      .ok (read.reverse ++ xs, rest) := by
  induction h generalizing read fuel with
  | nil =>
    rw [List.length_nil] at hfuel
    obtain ⟨fuel, rfl⟩ : ∃ n, fuel = n + 1 := ⟨fuel - 1, by omega⟩
    rw [Json.itemsText, List.nil_append, itemsFrom_close false read hclose, List.append_nil]
  | @cons v x vs xs hv _ ih =>
    rw [List.length_cons] at hfuel
    obtain ⟨fuel, rfl⟩ : ∃ n, fuel = n + 1 := ⟨fuel - 1, by omega⟩
    have hread := (hv.read_valueText hfree.1 (Json.endsNumber_itemsText level vs hclosing)).1
    obtain ⟨b, tail, hcons, hskip, hb⟩ := Json.skipSpace_valueText level hfree.1
      (Json.itemsText level vs ++ closing)
    rw [Json.itemsText]
    simp only [List.cons_append, List.append_assoc]
    rw [itemsFrom_next (by rw [skipSpace_newLineText, hskip]) hb (by rw [← hcons]; exact hread),
      ih hfree.2 (x :: read) (by omega), List.reverse_cons, List.append_assoc,
      List.singleton_append]

/-- **A written list is read as what its elements are read as.** -/
theorem items_of_reads {vs : List Json} {xs : List α}
    (h : List.Forall₂ (Reads item (level + 1)) vs xs) (hfree : Json.FloatFreeAll vs)
    (rest : List UInt8) :
    ∃ body, Json.valueText level (.array vs) ++ rest = 0x5B :: body ∧
      items item body = .ok (xs, rest) := by
  cases h with
  | nil => exact ⟨0x5D :: rest, rfl, itemsFrom_close true [] rfl⟩
  | @cons v x vs xs hv hvs =>
    have hclose : skipSpace (Json.newLineText level ++ 0x5D :: rest) = 0x5D :: rest := by
      rw [skipSpace_newLineText, skipSpace_cons (by decide)]
    have hclosing : EndsNumber (Json.newLineText level ++ 0x5D :: rest) :=
      endsNumber_cons (Or.inr rfl)
    have hread := (hv.read_valueText hfree.1
      (Json.endsNumber_itemsText (level + 1) vs hclosing)).1
    obtain ⟨b, tail, hcons, hskip, hb⟩ := Json.skipSpace_valueText (level + 1) hfree.1
      (Json.itemsText (level + 1) vs ++ (Json.newLineText level ++ 0x5D :: rest))
    -- each round of the reader takes at least one byte
    have hlength := Json.length_le_itemsText (level + 1) vs
    have hfuel : vs.length < (Json.newLineText (level + 1) ++ (Json.valueText (level + 1) v ++
        (Json.itemsText (level + 1) vs ++ (Json.newLineText level ++ 0x5D :: rest)))).length := by
      simp only [List.length_append, List.length_cons]
      omega
    rw [Json.valueText]
    simp only [List.cons_append, List.append_assoc, List.nil_append]
    refine ⟨_, rfl, ?_⟩
    rw [items, itemsFrom_first (by rw [skipSpace_newLineText, hskip]) hb
      (by rw [← hcons]; exact hread), itemsFrom_of_reads hvs hfree.2 [x] hfuel hclose hclosing]
    rfl

/-- The members behind those that were read. -/
theorem fieldsFrom_of_reads {members : List (String × Json)} {s last : σ}
    (h : ReadsMembers entry level s members last) {fuel : Nat} {closing : List UInt8}
    (hfuel : members.length < fuel) (hclose : skipSpace closing = 0x7D :: rest)
    (hclosing : EndsNumber closing) :
    fieldsFrom entry fuel false s (Json.membersText level members ++ closing) =
      .ok (last, rest) := by
  induction h generalizing fuel with
  | nil s =>
    rw [List.length_nil] at hfuel
    obtain ⟨fuel, rfl⟩ : ∃ n, fuel = n + 1 := ⟨fuel - 1, by omega⟩
    rw [Json.membersText, List.nil_append, fieldsFrom_close false s hclose]
  | @cons s next last name v members hentry _ ih =>
    rw [List.length_cons] at hfuel
    obtain ⟨fuel, rfl⟩ : ∃ n, fuel = n + 1 := ⟨fuel - 1, by omega⟩
    have hread := hentry _ (Json.endsNumber_membersText level members hclosing)
    rw [Json.membersText]
    simp only [List.cons_append, List.append_assoc]
    rw [fieldsFrom_next (by rw [skipSpace_newLineText]; rfl) hread, ih (by omega)]

/-- **A written object is read as the state its members lead to.** -/
theorem fields_of_reads {members : List (String × Json)} {s last : σ}
    (h : ReadsMembers entry (level + 1) s members last) (rest : List UInt8) :
    ∃ body, Json.valueText level (.object members) ++ rest = 0x7B :: body ∧
      fields entry s body = .ok (last, rest) := by
  cases h with
  | nil => exact ⟨0x7D :: rest, rfl, fieldsFrom_close true s rfl⟩
  | @cons _ next _ name v members hentry hmembers =>
    have hclose : skipSpace (Json.newLineText level ++ 0x7D :: rest) = 0x7D :: rest := by
      rw [skipSpace_newLineText, skipSpace_cons (by decide)]
    have hclosing : EndsNumber (Json.newLineText level ++ 0x7D :: rest) :=
      endsNumber_cons (Or.inr rfl)
    have hread := hentry _ (Json.endsNumber_membersText (level + 1) members hclosing)
    have hlength := Json.length_le_membersText (level + 1) members
    have hfuel : members.length < (Json.newLineText (level + 1) ++ (Json.nameText name ++
        (Json.valueText (level + 1) v ++ (Json.membersText (level + 1) members ++
          (Json.newLineText level ++ 0x7D :: rest))))).length := by
      simp only [List.length_append, List.length_cons]
      omega
    rw [Json.valueText]
    simp only [List.cons_append, List.append_assoc, List.nil_append]
    refine ⟨_, rfl, ?_⟩
    rw [fields, fieldsFrom_first (by rw [skipSpace_newLineText]; rfl) hread,
      fieldsFrom_of_reads hmembers hfuel hclose hclosing]

end Reader

end DocStore
