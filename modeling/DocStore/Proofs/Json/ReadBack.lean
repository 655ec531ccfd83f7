import DocStore.Proofs.Json.Containers
import Mathlib.Data.List.DropRight
/-!
# Written JSON is read back

`value_valueText`: what a value adds to a text is read as that value, at any
level of the layout and in front of anything that does not go on with a
number, as long as the names of each object differ, no number is a float and
the depth that is left to the reader is enough. The induction is on the value,
with one statement for the elements of a list and one for the members of an
object, which are added to those that were read.
-/

namespace DocStore

namespace Reader

variable {left rest : List UInt8}

theorem value_skipSpace (depth : Nat) (left : List UInt8) :
    value depth (skipSpace left) = value depth left := by
  have hidem : skipSpace (skipSpace left) = skipSpace left :=
    List.dropWhile_idempotent isSpace left
  rw [value.eq_def, value.eq_def depth left, hidem]

/-- **A written member is added** to those before it. -/
theorem member_nameText {read : Reader Json} {members : List (String × Json)} {name : String}
    {v : Json} (h : read (0x20 :: left) = .ok (v, rest)) :
    member read members (Json.nameText name ++ left) =
      .ok (Json.insertMember name v members, rest) := by
  rw [member, string_nameText]
  simp [bind, Except.bind, colon_cons, h, pure, Except.pure]

/-! ## One value -/

variable {depth : Nat}

theorem value_null : value depth (0x6E :: (nullTail ++ rest)) = .ok (.null, rest) := by
  rw [value.eq_def]
  rfl

theorem value_true : value depth (0x74 :: (trueTail ++ rest)) = .ok (.bool true, rest) := by
  rw [value.eq_def]
  rfl

theorem value_false : value depth (0x66 :: (falseTail ++ rest)) = .ok (.bool false, rest) := by
  rw [value.eq_def]
  rfl

theorem value_string {s : String} (h : string left = .ok (s, rest)) :
    value depth (0x22 :: left) = .ok (.string s, rest) := by
  rw [value.eq_def]
  simp [skipSpace_cons (b := 0x22) (by decide), bind, Except.bind, h, pure, Except.pure]

theorem value_minus {n : Number} (h : number true left = .ok (n, rest)) :
    value depth (0x2D :: left) = .ok (.number n, rest) := by
  rw [value.eq_def]
  simp [skipSpace_cons (b := 0x2D) (by decide), bind, Except.bind, h, pure, Except.pure]

theorem value_digit {b : UInt8} {n : Number} (hb : isDigit b = true)
    (h : number false (b :: left) = .ok (n, rest)) :
    value depth (b :: left) = .ok (.number n, rest) := by
  have hrange : 0x30 ≤ b.toNat ∧ b.toNat ≤ 0x39 := by
    simpa [isDigit, UInt8.le_iff_toNat_le] using hb
  rw [value.eq_def]
  simp only [skipSpace_cons (Json.isSpace_eq_false_of_isDigit hb).1]
  split
  -- the bytes that open all other values are no digits
  case h_8 => simp [hb, h, bind, Except.bind, pure, Except.pure]
  all_goals omega

theorem value_list {vs : List Json} (h : items (value depth) left = .ok (vs, rest)) :
    value (depth + 1) (0x5B :: left) = .ok (.array vs, rest) := by
  rw [value.eq_def]
  simp [skipSpace_cons (b := 0x5B) (by decide), bind, Except.bind, h, pure, Except.pure]

theorem value_object {members : List (String × Json)}
    (h : fields (member (value depth)) [] left = .ok (members, rest)) :
    value (depth + 1) (0x7B :: left) = .ok (.object members, rest) := by
  rw [value.eq_def]
  simp [skipSpace_cons (b := 0x7B) (by decide), bind, Except.bind, h, pure, Except.pure]

/-- **A whole number is read back**, from behind its sign if it has one. -/
theorem number_whole {n : Int} (lower : -0x8000000000000000 ≤ n) (upper : n < 0x10000000000000000)
    (hend : EndsNumber rest) :
    (0 ≤ n → number false (digitBytes n.toNat ++ rest) = .ok (.whole n lower upper, rest)) ∧
    (n < 0 → number true (digitBytes (-n).toNat ++ rest) = .ok (.whole n lower upper, rest)) := by
  have hlimit : significandLimit = 0x10000000000000000 := rfl
  constructor
  · intro hnonneg
    obtain ⟨m, rfl⟩ := Int.eq_ofNat_of_zero_le hnonneg
    rw [Int.toNat_natCast, number_digitBytes false (by omega) hend, wholeOfParts_nonneg lower upper]
  · intro hneg
    obtain ⟨m, rfl⟩ : ∃ m : Nat, n = -(m : Int) := ⟨(-n).toNat, by omega⟩
    rw [Int.neg_neg, Int.toNat_natCast, number_digitBytes true (by omega) hend,
      wholeOfParts_neg (by omega) lower upper]

theorem value_whole {n : Int} (lower : -0x8000000000000000 ≤ n) (upper : n < 0x10000000000000000)
    (level : Nat) (hend : EndsNumber rest) :
    value depth (Json.valueText level (.number (.whole n lower upper)) ++ rest) =
      .ok (.number (.whole n lower upper), rest) := by
  obtain ⟨hnonneg, hneg⟩ := number_whole lower upper hend
  rw [Json.valueText_whole]
  split
  next hsign =>
    obtain ⟨b, bs, hcons, hb⟩ := Json.exists_digitBytes_cons n.toNat
    have hread := hnonneg hsign
    rw [hcons, List.cons_append] at hread ⊢
    exact value_digit hb hread
  next hsign =>
    rw [List.cons_append]
    exact value_minus (hneg (by omega))

end Reader

namespace Json

/-- A new name comes last. -/
theorem insertMember_of_notMem {name : String} {v : Json} {members : List (String × Json)}
    (h : name ∉ members.map (·.1)) : insertMember name v members = members ++ [(name, v)] := by
  induction members with
  | nil => rfl
  | cons m members ih =>
    obtain ⟨n, w⟩ := m
    simp only [List.map_cons, List.mem_cons, not_or] at h
    rw [insertMember, if_neg (Ne.symm h.1), ih h.2, List.cons_append]

mutual

/-- **What a value adds to a text is read as that value.** -/
theorem value_valueText (level depth : Nat) (v : Json) (rest : List UInt8) (hfree : FloatFree v)
    (hdistinct : Distinct v) (hdepth : v.depth ≤ depth) (hend : Reader.EndsNumber rest) :
    Reader.value depth (valueText level v ++ rest) = .ok (v, rest) := by
  match v, hfree with
  | .null, _ => exact Reader.value_null
  | .bool true, _ => exact Reader.value_true
  | .bool false, _ => exact Reader.value_false
  | .number (.whole n lower upper), _ => exact Reader.value_whole lower upper level hend
  | .string s, _ => exact Reader.value_string (Reader.string_stringText s rest)
  | .array vs, hfree =>
    simp only [FloatFree, Distinct, Json.depth] at hfree hdistinct hdepth
    obtain ⟨d, rfl⟩ : ∃ d, depth = d + 1 := ⟨depth - 1, by omega⟩
    obtain ⟨body, htext, hitems⟩ :=
      Reader.items_of_reads (reads_items (level + 1) d vs hfree hdistinct (by omega)) hfree rest
    rw [htext]
    exact Reader.value_list hitems
  | .object members, hfree =>
    simp only [FloatFree, Distinct, Json.depth] at hfree hdistinct hdepth
    obtain ⟨d, rfl⟩ : ∃ d, depth = d + 1 := ⟨depth - 1, by omega⟩
    obtain ⟨body, htext, hfields⟩ := Reader.fields_of_reads
      (reads_members (level + 1) d members [] hfree hdistinct.2 hdistinct.1 (by omega)) rest
    rw [htext]
    exact Reader.value_object hfields

theorem reads_items (level depth : Nat) (vs : List Json) (hfree : FloatFreeAll vs)
    (hdistinct : DistinctAll vs) (hdepth : depthAll vs ≤ depth) :
    List.Forall₂ (Reader.Reads (Reader.value depth) level) vs vs := by
  match vs with
  | [] => exact .nil
  | v :: vs =>
    simp only [FloatFreeAll, DistinctAll, depthAll] at hfree hdistinct hdepth
    refine .cons (fun left rest hleft hend => ?_)
      (reads_items level depth vs hfree.2 hdistinct.2 (by omega))
    rw [← Reader.value_skipSpace, hleft]
    exact value_valueText level depth v rest hfree.1 hdistinct.1 (by omega) hend

theorem reads_members (level depth : Nat) (members read : List (String × Json))
    (hfree : FloatFreeMembers members) (hdistinct : DistinctMembers members)
    (hnames : ((read ++ members).map (·.1)).Nodup) (hdepth : depthMembers members ≤ depth) :
    Reader.ReadsMembers (Reader.member (Reader.value depth)) level read members
      (read ++ members) := by
  match members with
  | [] =>
    rw [List.append_nil]
    exact .nil read
  | (name, v) :: members =>
    simp only [FloatFreeMembers, DistinctMembers, depthMembers] at hfree hdistinct hdepth
    have hnew : name ∉ read.map (·.1) := by
      rw [List.map_append, List.map_cons, List.nodup_append] at hnames
      exact fun hmem => hnames.2.2 name hmem name (List.mem_cons_self ..) rfl
    rw [List.append_cons] at hnames ⊢
    refine .cons (fun rest hend => ?_)
      (reads_members level depth members _ hfree.2 hdistinct.2 hnames (by omega))
    rw [← insertMember_of_notMem hnew]
    refine Reader.member_nameText ?_
    rw [← Reader.value_skipSpace, Reader.skipSpace_space, Reader.value_skipSpace]
    exact value_valueText level depth v rest hfree.1 hdistinct.1 (by omega) hend

end

/-- **A written text is read back as the value it was written from.** -/
theorem parse_pretty {v : Json} (hfree : FloatFree v) (hdistinct : Distinct v)
    (hdepth : v.depth ≤ depthLimit) : parse (Text.bytes (pretty v)) = .ok v := by
  have hread := value_valueText 0 depthLimit v [] hfree hdistinct hdepth
    (by simp [Reader.EndsNumber])
  rw [List.append_nil] at hread
  rw [parse, Reader.whole, bytes_pretty, read, hread]
  rfl

end Json

end DocStore
