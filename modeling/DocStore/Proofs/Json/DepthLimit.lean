import DocStore.Proofs.Json.ReadBack
/-!
# The depth limit is exact

A written text is read back exactly if the value is no deeper than the reader
goes (`parse_pretty_iff`). Where a value is deeper, whatever stands in front of
the first container that is too deep is read as it was written, and the bracket
of that container is refused (`value_valueText_of_deep`).
-/

namespace DocStore

namespace Reader

variable {α σ : Type} {left rest : List UInt8} {f : Fault}

/-! ## A fault inside a container -/

section Items

variable {item : Reader α}

theorem itemsFrom_first_error {fuel : Nat} {b : UInt8} {tail : List UInt8}
    (h : skipSpace left = b :: tail) (hb : b ≠ 0x5D) (hitem : item (b :: tail) = .error f) :
    itemsFrom item (fuel + 1) true [] left = .error f := by
  rw [itemsFrom.eq_def]
  simp [h, hb, hitem]

theorem itemsFrom_next_error {fuel : Nat} {read : List α} {b : UInt8} {tail : List UInt8}
    (h : skipSpace left = b :: tail) (hb : b ≠ 0x5D) (hitem : item (b :: tail) = .error f) :
    itemsFrom item (fuel + 1) false read (0x2C :: left) = .error f := by
  rw [itemsFrom.eq_def]
  simp [skipSpace_cons (b := 0x2C) (by decide), h, hb, hitem]

end Items

section Fields

variable {entry : σ → Reader σ}

theorem fieldsFrom_first_error {fuel : Nat} {state : σ} {tail : List UInt8}
    (h : skipSpace left = 0x22 :: tail) (hentry : entry state (0x22 :: tail) = .error f) :
    fieldsFrom entry (fuel + 1) true state left = .error f := by
  rw [fieldsFrom.eq_def]
  simp [h, hentry]

theorem fieldsFrom_next_error {fuel : Nat} {state : σ} {tail : List UInt8}
    (h : skipSpace left = 0x22 :: tail) (hentry : entry state (0x22 :: tail) = .error f) :
    fieldsFrom entry (fuel + 1) false state (0x2C :: left) = .error f := by
  rw [fieldsFrom.eq_def]
  simp [skipSpace_cons (b := 0x2C) (by decide), h, hentry]

theorem member_nameText_error {read : Reader Json} {members : List (String × Json)} {name : String}
    (h : read (0x20 :: left) = .error f) :
    member read members (Json.nameText name ++ left) = .error f := by
  rw [member, string_nameText]
  simp [bind, Except.bind, colon_cons, h]

end Fields

variable {depth : Nat}

theorem value_list_error (h : items (value depth) left = .error f) :
    value (depth + 1) (0x5B :: left) = .error f := by
  rw [value.eq_def]
  simp [skipSpace_cons (b := 0x5B) (by decide), bind, Except.bind, h]

theorem value_object_error (h : fields (member (value depth)) [] left = .error f) :
    value (depth + 1) (0x7B :: left) = .error f := by
  rw [value.eq_def]
  simp [skipSpace_cons (b := 0x7B) (by decide), bind, Except.bind, h]

/-- **No container is opened where the depth is used up.** -/
theorem value_zero_list : value 0 (0x5B :: left) = stopAt .tooDeep (0x5B :: left) := by
  rw [value.eq_def]
  simp [skipSpace_cons (b := 0x5B) (by decide)]

theorem value_zero_object : value 0 (0x7B :: left) = stopAt .tooDeep (0x7B :: left) := by
  rw [value.eq_def]
  simp [skipSpace_cons (b := 0x7B) (by decide)]

end Reader

namespace Json

/-- A reader refuses a text as too deep. -/
def RefusedAsDeep {α : Type} (result : Except Fault α) : Prop :=
  ∃ left, result = .error ⟨.tooDeep, left⟩

mutual

/-- **What a value deeper than the reader goes adds to a text is refused.** -/
theorem value_valueText_of_deep (level depth : Nat) (v : Json) (rest : List UInt8)
    (hfree : FloatFree v) (hdistinct : Distinct v) (hdeep : depth < v.depth) :
    RefusedAsDeep (Reader.value depth (valueText level v ++ rest)) := by
  match v with
  | .null | .bool _ | .number _ | .string _ => simp [Json.depth] at hdeep
  | .array [] =>
    obtain rfl : depth = 0 := by simpa [Json.depth, depthAll] using hdeep
    exact ⟨_, Reader.value_zero_list⟩
  | .array (v :: vs) =>
    rw [valueText]
    simp only [List.cons_append, List.append_assoc, List.nil_append]
    rcases Nat.eq_zero_or_pos depth with rfl | hpos
    · exact ⟨_, Reader.value_zero_list⟩
    obtain ⟨depth, rfl⟩ : ∃ d, depth = d + 1 := ⟨depth - 1, by omega⟩
    simp only [FloatFree, FloatFreeAll, Distinct, DistinctAll, Json.depth, depthAll]
      at hfree hdistinct hdeep
    have hclosing : Reader.EndsNumber (newLineText level ++ 0x5D :: rest) :=
      Reader.endsNumber_cons (Or.inr rfl)
    obtain ⟨b, tail, hcons, hskip, hb⟩ := skipSpace_valueText (level + 1) hfree.1
      (itemsText (level + 1) vs ++ (newLineText level ++ 0x5D :: rest))
    have hopen := hskip
    rw [← Reader.skipSpace_newLineText (level + 1)] at hopen
    by_cases hfirst : depth < v.depth
    · -- the first element is too deep
      obtain ⟨left, hleft⟩ := value_valueText_of_deep (level + 1) depth v
        (itemsText (level + 1) vs ++ (newLineText level ++ 0x5D :: rest)) hfree.1 hdistinct.1 hfirst
      rw [hcons] at hleft
      exact ⟨left, Reader.value_list_error (Reader.itemsFrom_first_error hopen hb hleft)⟩
    · -- the first element is read, and one behind it is too deep
      have hread := value_valueText (level + 1) depth v
        (itemsText (level + 1) vs ++ (newLineText level ++ 0x5D :: rest)) hfree.1 hdistinct.1
        (Nat.not_lt.1 hfirst) (endsNumber_itemsText _ _ hclosing)
      rw [hcons] at hread
      have hlength := length_le_itemsText (level + 1) vs
      have hfuel : vs.length < (newLineText (level + 1) ++ (valueText (level + 1) v ++
          (itemsText (level + 1) vs ++ (newLineText level ++ 0x5D :: rest)))).length := by
        simp only [List.length_append, List.length_cons]
        omega
      obtain ⟨left, hleft⟩ := itemsFrom_itemsText_of_deep (level + 1) depth vs [v] hfuel hfree.2
        hdistinct.2 (by omega) hclosing
      refine ⟨left, Reader.value_list_error ?_⟩
      rw [Reader.items, Reader.itemsFrom_first hopen hb hread]
      exact hleft
  | .object [] =>
    obtain rfl : depth = 0 := by simpa [Json.depth, depthMembers] using hdeep
    exact ⟨_, Reader.value_zero_object⟩
  | .object ((name, v) :: members) =>
    rw [valueText]
    simp only [List.cons_append, List.append_assoc, List.nil_append]
    rcases Nat.eq_zero_or_pos depth with rfl | hpos
    · exact ⟨_, Reader.value_zero_object⟩
    obtain ⟨depth, rfl⟩ : ∃ d, depth = d + 1 := ⟨depth - 1, by omega⟩
    simp only [FloatFree, FloatFreeMembers, Distinct, DistinctMembers, Json.depth, depthMembers]
      at hfree hdistinct hdeep
    have hclosing : Reader.EndsNumber (newLineText level ++ 0x7D :: rest) :=
      Reader.endsNumber_cons (Or.inr rfl)
    by_cases hfirst : depth < v.depth
    · obtain ⟨left, hleft⟩ := value_valueText_of_deep (level + 1) depth v
        (membersText (level + 1) members ++ (newLineText level ++ 0x7D :: rest)) hfree.1
        hdistinct.2.1 hfirst
      rw [← Reader.value_skipSpace, ← Reader.skipSpace_space, Reader.value_skipSpace] at hleft
      exact ⟨left, Reader.value_object_error (Reader.fieldsFrom_first_error
        (by rw [Reader.skipSpace_newLineText]; rfl) (Reader.member_nameText_error hleft))⟩
    · have hread := value_valueText (level + 1) depth v
        (membersText (level + 1) members ++ (newLineText level ++ 0x7D :: rest)) hfree.1
        hdistinct.2.1 (Nat.not_lt.1 hfirst) (endsNumber_membersText _ _ hclosing)
      rw [← Reader.value_skipSpace, ← Reader.skipSpace_space, Reader.value_skipSpace] at hread
      have hlength := length_le_membersText (level + 1) members
      have hfuel : members.length < (newLineText (level + 1) ++ (nameText name ++
          (valueText (level + 1) v ++ (membersText (level + 1) members ++
            (newLineText level ++ 0x7D :: rest))))).length := by
        simp only [List.length_append, List.length_cons]
        omega
      obtain ⟨left, hleft⟩ := fieldsFrom_membersText_of_deep (level + 1) depth members [(name, v)]
        hfuel hfree.2 hdistinct.2.2 hdistinct.1 (by omega) hclosing
      refine ⟨left, Reader.value_object_error ?_⟩
      rw [Reader.fields, Reader.fieldsFrom_first (by rw [Reader.skipSpace_newLineText]; rfl)
        (Reader.member_nameText hread)]
      exact hleft

/-- One of the elements behind those that were read is too deep. -/
theorem itemsFrom_itemsText_of_deep (level depth : Nat) (vs read : List Json) {fuel : Nat}
    {closing : List UInt8} (hfuel : vs.length < fuel) (hfree : FloatFreeAll vs)
    (hdistinct : DistinctAll vs) (hdeep : depth < depthAll vs)
    (hclosing : Reader.EndsNumber closing) :
    RefusedAsDeep (Reader.itemsFrom (Reader.value depth) fuel false read
      (itemsText level vs ++ closing)) := by
  match vs with
  | [] => simp [depthAll] at hdeep
  | v :: vs =>
    rw [List.length_cons] at hfuel
    obtain ⟨fuel, rfl⟩ : ∃ n, fuel = n + 1 := ⟨fuel - 1, by omega⟩
    simp only [FloatFreeAll, DistinctAll, depthAll] at hfree hdistinct hdeep
    obtain ⟨b, tail, hcons, hskip, hb⟩ := skipSpace_valueText level hfree.1
      (itemsText level vs ++ closing)
    rw [← Reader.skipSpace_newLineText level] at hskip
    rw [itemsText]
    simp only [List.cons_append, List.append_assoc]
    by_cases hfirst : depth < v.depth
    · obtain ⟨left, hleft⟩ := value_valueText_of_deep level depth v
        (itemsText level vs ++ closing) hfree.1 hdistinct.1 hfirst
      rw [hcons] at hleft
      exact ⟨left, Reader.itemsFrom_next_error hskip hb hleft⟩
    · have hread := value_valueText level depth v (itemsText level vs ++ closing) hfree.1
        hdistinct.1 (Nat.not_lt.1 hfirst) (endsNumber_itemsText _ _ hclosing)
      rw [hcons] at hread
      rw [Reader.itemsFrom_next hskip hb hread]
      exact itemsFrom_itemsText_of_deep level depth vs (v :: read) (by omega) hfree.2 hdistinct.2
        (by omega) hclosing

/-- The value of one of the members behind those that were read is too deep. -/
theorem fieldsFrom_membersText_of_deep (level depth : Nat) (members read : List (String × Json))
    {fuel : Nat} {closing : List UInt8} (hfuel : members.length < fuel)
    (hfree : FloatFreeMembers members) (hdistinct : DistinctMembers members)
    (hnames : ((read ++ members).map (·.1)).Nodup) (hdeep : depth < depthMembers members)
    (hclosing : Reader.EndsNumber closing) :
    RefusedAsDeep (Reader.fieldsFrom (Reader.member (Reader.value depth)) fuel false read
      (membersText level members ++ closing)) := by
  match members with
  | [] => simp [depthMembers] at hdeep
  | (name, v) :: members =>
    rw [List.length_cons] at hfuel
    obtain ⟨fuel, rfl⟩ : ∃ n, fuel = n + 1 := ⟨fuel - 1, by omega⟩
    simp only [FloatFreeMembers, DistinctMembers, depthMembers] at hfree hdistinct hdeep
    have hnew : name ∉ read.map (·.1) := by
      rw [List.map_append, List.map_cons, List.nodup_append] at hnames
      exact fun hmem => hnames.2.2 name hmem name (List.mem_cons_self ..) rfl
    rw [membersText]
    simp only [List.cons_append, List.append_assoc]
    by_cases hfirst : depth < v.depth
    · obtain ⟨left, hleft⟩ := value_valueText_of_deep level depth v
        (membersText level members ++ closing) hfree.1 hdistinct.1 hfirst
      rw [← Reader.value_skipSpace, ← Reader.skipSpace_space, Reader.value_skipSpace] at hleft
      exact ⟨left, Reader.fieldsFrom_next_error (by rw [Reader.skipSpace_newLineText]; rfl)
        (Reader.member_nameText_error hleft)⟩
    · have hread := value_valueText level depth v (membersText level members ++ closing) hfree.1
        hdistinct.1 (Nat.not_lt.1 hfirst) (endsNumber_membersText _ _ hclosing)
      rw [← Reader.value_skipSpace, ← Reader.skipSpace_space, Reader.value_skipSpace] at hread
      rw [Reader.fieldsFrom_next (by rw [Reader.skipSpace_newLineText]; rfl)
        (Reader.member_nameText hread), insertMember_of_notMem hnew]
      exact fieldsFrom_membersText_of_deep level depth members (read ++ [(name, v)]) (by omega)
        hfree.2 hdistinct.2 (by simpa using hnames) (by omega) hclosing

end

/-- **A text deeper than the limit is refused**, for its depth. -/
theorem parse_pretty_of_deep {v : Json} (hfree : FloatFree v) (hdistinct : Distinct v)
    (hdeep : depthLimit < v.depth) :
    ∃ e, parse (Text.bytes (pretty v)) = .error e ∧ e.cause = .tooDeep := by
  obtain ⟨left, hleft⟩ := value_valueText_of_deep 0 depthLimit v [] hfree hdistinct hdeep
  rw [List.append_nil] at hleft
  rw [parse, Reader.whole, bytes_pretty, read, hleft]
  exact ⟨_, rfl, rfl⟩

/-- **The limit is exact**: a written text is read back exactly if the value is
at most as deep. -/
theorem parse_pretty_iff {v : Json} (hfree : FloatFree v) (hdistinct : Distinct v) :
    parse (Text.bytes (pretty v)) = .ok v ↔ v.depth ≤ depthLimit := by
  constructor
  · intro h
    by_contra hdeep
    obtain ⟨e, he, -⟩ := parse_pretty_of_deep hfree hdistinct (Nat.not_le.1 hdeep)
    rw [he] at h
    cases h
  · exact parse_pretty hfree hdistinct

end Json

end DocStore
