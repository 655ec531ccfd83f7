import DocStore.Encoding.Encode
import Mathlib.Data.List.Forall2
import Mathlib.Data.List.Nodup
/-!
# JSON values encode to themselves

A JSON value taken as a node needs no substitute anywhere, so every encoder
gives the value back, its members in their order, once the budget exceeds the
depth of the value.
-/

namespace DocStore

namespace Number

/-- **A number survives being a node**, in whichever integer form it takes. -/
theorem encode_ofNumber (e : Encoder) (budget chain : Nat) (n : Number) :
    e.encode (budget + 1) chain (Node.ofNumber n) = pure (.number n) := by
  cases n with
  | whole n lower upper =>
    rw [Node.ofNumber]
    split
    · have hvalue : (Int64.ofInt n).toInt = n :=
        Int64.toInt_ofInt_of_le lower (by omega)
      simp only [Encoder.encode, Number.ofInt64, hvalue]
    · have hvalue : ((UInt64.ofNat n.toNat).toNat : Int) = n := by
        rw [UInt64.toNat_ofNat']
        omega
      simp only [Encoder.encode, Number.ofUInt64, hvalue]
  | float x hfinite => simp [Node.ofNumber, Encoder.encode, hfinite]

end Number

namespace Encoder

open Node Json

/-- Elements that all encode are encoded one by one. -/
theorem encodeItems_eq_pure {f : Node → Attempt Json} {items : List Node} {ws : List Json}
    (h : List.Forall₂ (fun v w => f v = pure w) items ws) : encodeItems f items = pure ws := by
  induction h with
  | nil => rfl
  | cons hv _ ih => rw [encodeItems, hv, pure_bind, ih, pure_bind]

/-- **Entries under different names whose values all encode** are encoded one by one. -/
theorem encodeEntries_eq_pure {f : Node → Attempt Json} {entries : List (Key × Node)}
    {members : List (String × Json)}
    (h : List.Forall₂ (fun entry member => entry.1.name = .ok member.1 ∧ f entry.2 = pure member.2)
      entries members) {taken : List String} (hnames : (taken ++ members.map (·.1)).Nodup) :
    encodeEntries f taken entries = pure members := by
  induction h generalizing taken with
  | nil => rfl
  | @cons entry member entries members hentry _ ih =>
    obtain ⟨key, v⟩ := entry
    obtain ⟨name, w⟩ := member
    obtain ⟨hname, hv⟩ : key.name = .ok name ∧ f v = pure w := hentry
    have hnew : name ∉ taken := by
      rw [List.map_cons, List.nodup_append] at hnames
      exact fun hmem => hnames.2.2 name hmem name (List.mem_cons_self ..) rfl
    have hrest : ((name :: taken) ++ members.map (·.1)).Nodup :=
      List.perm_middle.nodup_iff.1 (by rwa [List.map_cons] at hnames)
    rw [encodeEntries, hname]
    dsimp only
    rw [if_neg hnew, hv, pure_bind, ih hrest, pure_bind]

mutual

theorem encode_ofJson (e : Encoder) (budget chain : Nat) (v : Json) (hdistinct : Distinct v)
    (hdepth : v.depth < budget) : e.encode budget chain (ofJson v) = pure v := by
  obtain ⟨budget, rfl⟩ : ∃ n, budget = n + 1 := ⟨budget - 1, by omega⟩
  match v with
  | .null => rfl
  | .bool b => rfl
  | .number n => exact Number.encode_ofNumber e budget chain n
  | .string s => rfl
  | .array vs =>
    rw [Json.depth] at hdepth
    rw [Distinct] at hdistinct
    rw [ofJson, encode, encodeItems_eq_pure (encode_ofJsonItems e budget vs hdistinct (by omega)),
      pure_bind]
  | .object members =>
    rw [Json.depth] at hdepth
    rw [Distinct] at hdistinct
    rw [ofJson, encode, encodeEntries_eq_pure
      (encode_ofJsonMembers e budget members hdistinct.2 (by omega)) hdistinct.1, pure_bind]

theorem encode_ofJsonItems (e : Encoder) (budget : Nat) (vs : List Json)
    (hdistinct : DistinctAll vs) (hdepth : depthAll vs < budget) :
    List.Forall₂ (fun n v => e.encode budget 0 n = pure v) (ofJsonItems vs) vs := by
  match vs with
  | [] => exact .nil
  | v :: vs =>
    rw [depthAll] at hdepth
    exact .cons (encode_ofJson e budget 0 v hdistinct.1 (by omega))
      (encode_ofJsonItems e budget vs hdistinct.2 (by omega))

theorem encode_ofJsonMembers (e : Encoder) (budget : Nat) (members : List (String × Json))
    (hdistinct : DistinctMembers members) (hdepth : depthMembers members < budget) :
    List.Forall₂ (fun entry member =>
      entry.1.name = .ok member.1 ∧ e.encode budget 0 entry.2 = pure member.2)
      (ofJsonMembers members) members := by
  match members with
  | [] => exact .nil
  | (name, v) :: members =>
    rw [depthMembers] at hdepth
    exact .cons ⟨rfl, encode_ofJson e budget 0 v hdistinct.1 (by omega)⟩
      (encode_ofJsonMembers e budget members hdistinct.2 (by omega))

end

/-- **Every encoder gives a JSON value back.** -/
theorem toJson_ofJson (e : Encoder) {budget : Nat} {v : Json} (hdistinct : Distinct v)
    (hdepth : v.depth < budget) : e.toJson budget (ofJson v) = some (.ok v) := by
  rw [toJson, encode_ofJson e budget 0 v hdistinct hdepth]
  rfl

end Encoder

end DocStore
