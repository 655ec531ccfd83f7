import DocStore.Proofs.Diagnosis.Pruning
import DocStore.Proofs.Encoding.Distinct
import DocStore.Proofs.Encoding.Substitutes
import DocStore.Proofs.Encoding.Values
/-!
# Encoding brings a node into normal form

Whatever lies in a JSON value taken as a node is again a JSON value taken as a node, so
nothing in it needs a substitute, its keys are texts, and its integers are unsigned only
where they must be. The value of a node, taken as a node, is therefore one that every
encoder leaves as it is (`toJson_normal`).
-/

namespace DocStore

namespace Node

/-- **A node in normal form.** Nothing in it needs a substitute, all keys are texts, and
an unsigned integer is one that no signed integer is. -/
structure Normal (n : Node) : Prop where
  native : ∀ m, n.Within m → m.isNative = true
  keys : ∀ entries, n.Within (.object entries) → ∀ entry ∈ entries, ∃ s, entry.1 = .string s
  unsigned : ∀ u, n.Within (.uint u) → 0x8000000000000000 ≤ u.toNat

theorem exists_of_mem_ofJsonItems {items : List Json} {v : Node} (h : v ∈ ofJsonItems items) :
    ∃ x, v = ofJson x := by
  induction items with
  | nil => cases h
  | cons x rest ih =>
    rw [ofJsonItems] at h
    rcases List.mem_cons.1 h with rfl | h
    · exact ⟨x, rfl⟩
    · exact ih h

theorem exists_of_mem_ofJsonMembers {members : List (String × Json)} {entry : Key × Node}
    (h : entry ∈ ofJsonMembers members) : ∃ name x, entry = (.string name, ofJson x) := by
  induction members with
  | nil => cases h
  | cons member rest ih =>
    obtain ⟨name, x⟩ := member
    rw [ofJsonMembers] at h
    rcases List.mem_cons.1 h with rfl | h
    · exact ⟨name, x, rfl⟩
    · exact ih h

/-! ## JSON values taken as nodes -/

/-- Only lists become arrays. -/
theorem ofJson_eq_array {x : Json} {items : List Node} (h : ofJson x = .array items) :
    ∃ xs, items = ofJsonItems xs := by
  match x with
  | .array xs => exact ⟨xs, (Node.array.inj h).symm⟩
  | .number (.whole n _ _) => rw [ofJson, ofNumber] at h; split at h <;> cases h

/-- Only objects become objects. -/
theorem ofJson_eq_object {x : Json} {entries : List (Key × Node)}
    (h : ofJson x = .object entries) : ∃ members, entries = ofJsonMembers members := by
  match x with
  | .object members => exact ⟨members, (Node.object.inj h).symm⟩
  | .number (.whole n _ _) => rw [ofJson, ofNumber] at h; split at h <;> cases h

/-- **A whole number is unsigned only where no signed integer is it.** -/
theorem ofJson_eq_uint {x : Json} {u : UInt64} (h : ofJson x = .uint u) :
    0x8000000000000000 ≤ u.toNat := by
  match x with
  | .number (.whole n lower upper) =>
    rw [ofJson, ofNumber] at h
    split at h
    next => cases h
    next hlarge =>
      obtain rfl := Node.uint.inj h
      rw [UInt64.toNat_ofNat']
      omega

theorem isNative_ofJson (x : Json) : (ofJson x).isNative = true := by
  match x with
  | .number (.whole n _ _) => rw [ofJson, ofNumber]; split <;> rfl
  | .number (.float _ _) | .null | .bool _ | .string _ | .array _ | .object _ => rfl

/-- **What lies in a JSON value taken as a node** is one as well. -/
theorem Within.exists_ofJson {x : Json} {m : Node} (h : (ofJson x).Within m) :
    ∃ y, m = ofJson y := by
  induction h with
  | self => exact ⟨x, rfl⟩
  | item _ hv ih =>
    obtain ⟨y, hy⟩ := ih
    obtain ⟨ys, rfl⟩ := ofJson_eq_array hy.symm
    exact exists_of_mem_ofJsonItems hv
  | value _ hentry ih =>
    obtain ⟨y, hy⟩ := ih
    obtain ⟨members, rfl⟩ := ofJson_eq_object hy.symm
    obtain ⟨name, z, rfl⟩ := exists_of_mem_ofJsonMembers hentry
    exact ⟨z, rfl⟩

/-- **A JSON value taken as a node is in normal form.** -/
theorem normal_ofJson (x : Json) : (ofJson x).Normal where
  native m hm := by
    obtain ⟨y, rfl⟩ := hm.exists_ofJson
    exact isNative_ofJson y
  keys entries hentries entry hentry := by
    obtain ⟨y, hy⟩ := hentries.exists_ofJson
    obtain ⟨members, rfl⟩ := ofJson_eq_object hy.symm
    obtain ⟨name, _, rfl⟩ := exists_of_mem_ofJsonMembers hentry
    exact ⟨name, rfl⟩
  unsigned u hu := by
    obtain ⟨y, hy⟩ := hu.exists_ofJson
    exact ofJson_eq_uint hy.symm

end Node

namespace Encoder

open Node

/-- **JSON values are nodes that encode to themselves, and encoding leads to them.** A
JSON value with different names in each object, taken as a node, encodes to itself under
every encoder, its members in their order. The value of any node under any encoder, taken
as a node, is in normal form, and encodes to that value under every other encoder too. So
it is the same node again that the value of the result is taken as. -/
theorem toJson_normal :
    (∀ (v : Json) (e : Encoder) (budget : Nat), v.Distinct → v.depth < budget →
      e.toJson budget (ofJson v) = some (.ok v)) ∧
    ∀ (n : Node) (e : Encoder) (budget : Nat) (x : Json), e.toJson budget n = some (.ok x) →
      (∀ (e' : Encoder) (budget' : Nat), x.depth < budget' →
        e'.toJson budget' (ofJson x) = some (.ok x)) ∧
      (∀ (e' : Encoder) (budget' : Nat) (y : Json),
        e'.toJson budget' (ofJson x) = some (.ok y) → ofJson y = ofJson x) ∧
      (ofJson x).Normal := by
  refine ⟨fun v e budget => toJson_ofJson e, fun n e budget x hx => ?_⟩
  have hagain : ∀ (e' : Encoder) (budget' : Nat), x.depth < budget' →
      e'.toJson budget' (ofJson x) = some (.ok x) :=
    fun e' budget' => toJson_ofJson e' (distinct_of_toJson hx)
  refine ⟨hagain, fun e' budget' y hy => ?_, normal_ofJson x⟩
  -- within whichever budget it encodes, it is the value of any other
  have hsame := toJson_unique hy (hagain e' (x.depth + 1) (Nat.lt_succ_self _))
  rw [Except.ok.inj hsame]

/-- A set under a number, and an unsigned integer that fits a signed one. -/
def irregular : Node := .object [(.int 7, .set [.null]), (.string "u", .uint 7)]

/-- Its value is an object of an array and a number, in their order, and goes through
every other encoder as it is. -/
theorem toJson_normal_irregular :
    ∃ x, standard.toJson 4 irregular = some (.ok x) ∧ (ofJson x).Normal ∧
      strict.toJson 3 (ofJson x) = some (.ok x) ∧ x.Distinct ∧
      extended.toJson 4 (ofJson (.array [x])) = some (.ok (.array [x])) := by
  have hx : standard.toJson 4 irregular = some (.ok (.object
      [("7", .array [.null]), ("u", .number (.ofUInt64 7))])) := rfl
  obtain ⟨hagain, -, hnormal⟩ := toJson_normal.2 _ _ _ _ hx
  have hdistinct := distinct_of_toJson hx
  exact ⟨_, hx, hnormal, hagain strict 3 (by decide), hdistinct,
    toJson_normal.1 _ extended 4 ⟨hdistinct, trivial⟩ (by decide)⟩

end Encoder

end DocStore
