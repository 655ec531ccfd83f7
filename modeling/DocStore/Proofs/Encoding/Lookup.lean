import DocStore.Proofs.Encoding.Acceptance
/-!
# Looking up names in what was encoded

An object is encoded entry by entry, under the names of the keys. Keys of all kinds share
these names, and no two entries have the same one, or the object would not have encoded.
So a name leads to the value of the one entry that has it, and an entry whose key is a
text keeps its name against all keys that are spelled like it (`get?_of_toJson`).
-/

namespace DocStore

namespace Node

/-- Access by name to a JSON value taken as a node goes by the names of its members. -/
theorem lookup_ofJsonMembers (name : String) (members : List (String × Json)) :
    lookup name (ofJsonMembers members) = (members.lookup name).map ofJson := by
  induction members with
  | nil => rfl
  | cons member rest ih =>
    obtain ⟨other, y⟩ := member
    rw [ofJsonMembers, lookup, List.lookup_cons]
    by_cases hname : other = name
    · subst hname
      simp
    · have hskip : (name == other) = false := beq_false_of_ne (Ne.symm hname)
      rw [if_neg hname, ih, hskip]

/-- What access by name finds is the value of an entry under that text. -/
theorem mem_of_lookup {name : String} {entries : List (Key × Node)} {v : Node}
    (h : lookup name entries = some v) : (.string name, v) ∈ entries := by
  induction entries with
  | nil => cases h
  | cons entry rest ih =>
    obtain ⟨key, u⟩ := entry
    cases key with
    | string s =>
      rw [lookup] at h
      split at h
      next hs =>
        obtain rfl := Option.some.inj h
        rw [hs]
        exact List.mem_cons_self ..
      next => exact List.mem_cons_of_mem _ (ih h)
    | _ => exact List.mem_cons_of_mem _ (ih h)

end Node

namespace Encoder

open Node

variable {e : Encoder} {budget : Nat} {entries : List (Key × Node)}
  {members : List (String × Json)} {name : String}

/-- **A name leads to the value of the entry that has it**, where members stand for
entries one by one and their names differ. -/
theorem lookup_eq_some_iff (encoded : Node → Json → Prop)
    (hunique : ∀ v y y', encoded v y → encoded v y' → y = y')
    (h : List.Forall₂ (fun entry member => entry.1.name = .ok member.1 ∧ encoded entry.2 member.2)
      entries members) (hnodup : (members.map (·.1)).Nodup) {y : Json} :
    members.lookup name = some y ↔
      ∃ entry ∈ entries, entry.1.name = .ok name ∧ encoded entry.2 y := by
  induction h with
  | nil => simp
  | @cons entry member entries members hentry _ ih =>
    rw [List.map_cons, List.nodup_cons] at hnodup
    obtain ⟨hnew, hnodup⟩ := hnodup
    obtain ⟨other, z⟩ := member
    obtain ⟨hother, hz⟩ : entry.1.name = .ok other ∧ encoded entry.2 z := hentry
    by_cases hname : name = other
    · subst hname
      rw [List.lookup_cons_self, Option.some.injEq]
      constructor
      · rintro rfl
        exact ⟨entry, List.mem_cons_self .., hother, hz⟩
      · rintro ⟨entry', hmem, hname', hy⟩
        rcases List.mem_cons.1 hmem with rfl | hmem
        · exact hunique entry'.2 z y hz hy
        · -- the name of a later entry is the name of a later member
          have hlater := (ih hnodup).2 ⟨entry', hmem, hname', hy⟩
          obtain ⟨front, back, hmembers, -⟩ := List.lookup_eq_some_iff.1 hlater
          exact absurd (by simp [hmembers]) hnew
    · have hskip : (name == other) = false := beq_false_of_ne hname
      rw [List.lookup_cons, hskip, ih hnodup]
      constructor
      · rintro ⟨entry', hmem, hname', hy⟩
        exact ⟨entry', List.mem_cons_of_mem entry hmem, hname', hy⟩
      · rintro ⟨entry', hmem, hname', hy⟩
        rcases List.mem_cons.1 hmem with rfl | hmem
        · rw [hother] at hname'
          exact absurd (Except.ok.inj hname').symm hname
        · exact ⟨entry', hmem, hname', hy⟩

/-- **Access by name to what an object encodes to.** No two entries have the same name.
The value under a name is that of the entry whose key has the name, whatever kind of key
that is, and there is none where no key has it. What the object itself has under a text is
encoded under that text, so no other kind of key gets in its way. -/
theorem get?_of_toJson {x : Json} (h : e.toJson budget (.object entries) = some (.ok x)) :
    (entries.Pairwise fun entry other => entry.1.name ≠ other.1.name) ∧
    ∃ members, x = .object members ∧ ∀ name,
      (∀ m, (ofJson x).get? name = some m ↔ ∃ entry ∈ entries, entry.1.name = .ok name ∧
        ∃ y, e.toJson budget entry.2 = some (.ok y) ∧ m = ofJson y) ∧
      ∀ v, (Node.object entries).get? name = some v →
        ∃ y, e.toJson budget v = some (.ok y) ∧ members.lookup name = some y := by
  cases budget with
  | zero => cases h
  | succ budget =>
    rw [toJson, encode] at h
    obtain ⟨members, hmembers, hx⟩ := run_bind_eq_ok.1 h
    cases hx
    obtain ⟨hnames, -⟩ := hasNames_of_encodeEntries hmembers
    obtain ⟨-, -, hdiffer⟩ := hasNames_iff.1 hnames
    have hnodup := (distinctMembers_of_encodeEntries (fun _ _ => distinct_of_encode) hmembers).1
    have hvalues : List.Forall₂ (fun entry member => entry.1.name = .ok member.1 ∧
        e.toJson (budget + 1) entry.2 = some (.ok member.2)) entries members :=
      (forall₂_of_encodeEntries hmembers).imp fun entry member hentry =>
        ⟨hentry.1, encode_extends (Nat.le_succ budget) 0 _ _ hentry.2⟩
    have hlookup : ∀ name y, members.lookup name = some y ↔ ∃ entry ∈ entries,
        entry.1.name = .ok name ∧ e.toJson (budget + 1) entry.2 = some (.ok y) :=
      fun name y => lookup_eq_some_iff (fun v z => e.toJson (budget + 1) v = some (.ok z))
        (fun v z z' hz hz' => Except.ok.inj (toJson_unique hz hz')) hvalues hnodup
    refine ⟨hdiffer, members, rfl, fun name => ⟨fun m => ?_, fun v hv => ?_⟩⟩
    · have hget : (ofJson (.object members)).get? name = (members.lookup name).map ofJson :=
        lookup_ofJsonMembers name members
      rw [hget, Option.map_eq_some_iff]
      constructor
      · rintro ⟨y, hy, rfl⟩
        obtain ⟨entry, hentry, hname, hvalue⟩ := (hlookup name y).1 hy
        exact ⟨entry, hentry, hname, y, hvalue, rfl⟩
      · rintro ⟨entry, hentry, hname, y, hvalue, rfl⟩
        exact ⟨y, (hlookup name y).2 ⟨entry, hentry, hname, hvalue⟩, rfl⟩
    · have hsome : ∀ entry ∈ entries, ∃ y, e.toJson (budget + 1) entry.2 = some (.ok y) :=
        ((List.forall₂_and_left _ _).1 (hvalues.imp fun entry member hentry =>
          ⟨⟨member.2, hentry.2⟩, hentry⟩)).1
      have hmem := mem_of_lookup hv
      obtain ⟨y, hy⟩ := hsome _ hmem
      exact ⟨y, hy, (hlookup name y).2 ⟨_, hmem, rfl, hy⟩⟩

/-- Entries under keys of four kinds, one of them a text that is spelled like a number. -/
def mixedKeys : List (Key × Node) :=
  [(.int 1, .set [.null]), (.bool true, .uint 7), (.string "2", .string "two"),
    (.null, .bool false)]

/-- The set is found under the text of its number, and the object itself has the text `2`. -/
theorem get?_of_toJson_mixedKeys :
    ∃ x, standard.toJson 4 (.object mixedKeys) = some (.ok x) ∧
      (ofJson x).get? "1" = some (.array [.null]) ∧ (ofJson x).get? "true" = some (.int 7) ∧
      (ofJson x).get? "2" = (Node.object mixedKeys).get? "2" := by
  have hx : standard.toJson 4 (.object mixedKeys) = some (.ok (.object [("1", .array [.null]),
      ("true", .number (.ofUInt64 7)), ("2", .string "two"), ("null", .bool false)])) := rfl
  obtain ⟨-, members, -, h⟩ := get?_of_toJson hx
  refine ⟨_, hx, ?_, ?_, ?_⟩
  · exact ((h "1").1 _).2
      ⟨(.int 1, .set [.null]), by simp [mixedKeys], rfl, .array [.null], rfl, rfl⟩
  · have hseven : Node.int 7 = ofJson (.number (.ofUInt64 7)) := by
      rw [ofJson, Number.ofUInt64, ofNumber, if_pos (by decide)]
      congr 1
    exact ((h "true").1 _).2
      ⟨(.bool true, .uint 7), by simp [mixedKeys], rfl, .number (.ofUInt64 7), rfl, hseven⟩
  · exact ((h "2").1 _).2
      ⟨(.string "2", .string "two"), by simp [mixedKeys], rfl, .string "two", rfl, rfl⟩

end Encoder

end DocStore
