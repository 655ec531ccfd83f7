import DocStore.Proofs.Typed.Faithful
import DocStore.Typed.Config
import Std.Data.String.ToInt
/-!
# Maps and products are read back

A map is written as an object, each key as a name, and read by inserting its members
one by one. Nothing is lost where the keys are faithful (`FaithfulKey`): different keys
have different names, so no entry is refused on the way out or replaced on the way in,
and what is inserted is the map (`foldl_insert_toList`). Whole numbers as keys are
named by their digits, with a sign where they are negative.
-/

namespace DocStore

open Json Reader

variable {κ α : Type} {left rest : List UInt8} {level : Nat}

/-! ## Keys -/

/-- **A type of keys that are read back** from their names. -/
class FaithfulKey (κ : Type) [Describe κ] [DecodableKey κ] where
  /-- The key that an entry is captured under. -/
  key : κ → Key
  /-- The name of a key. -/
  name : κ → String
  capture_describe : ∀ k : κ, ∃ n, (describe k).capture = .ok n ∧ n.toKey = key k
  name_key : ∀ k : κ, (key k).name = .ok (name k)
  name_injective : ∀ k l : κ, name k = name l → k = l
  readKey_name : ∀ (k : κ) (rest : List UInt8),
    DecodableKey.readKey (stringText (name k) ++ rest) = .ok (k, rest)

instance : FaithfulKey String where
  key := .string
  name := id
  capture_describe s := ⟨.string s, rfl, rfl⟩
  name_key _ := rfl
  name_injective _ _ h := h
  readKey_name s rest := by
    have hdrop : (stringText s ++ rest).drop 1 = (stringText s).drop 1 ++ rest := by
      simp [stringText]
    show string ((stringText s ++ rest).drop 1) = .ok (s, rest)
    rw [hdrop, string_stringText]

/-- **The name of a whole number within bounds is read as the number.** -/
theorem Reader.wholeKey_stringText {n : Int} (low high : Int) (hlow : low ≤ n) (hhigh : n ≤ high)
    (lower : -0x8000000000000000 ≤ n) (upper : n < 0x10000000000000000) (expected : String)
    (rest : List UInt8) :
    wholeKey low high expected (stringText n.repr ++ rest) = .ok (n, rest) := by
  obtain ⟨b, bs, hcons, hb⟩ : ∃ b bs, valueText 0 (.number (.whole n lower upper)) = b :: bs ∧
      (isDigit b || b == 0x2D) = true := by
    rw [valueText_whole]
    split
    · obtain ⟨b, bs, hcons, hb⟩ := exists_digitBytes_cons n.toNat
      exact ⟨b, bs, hcons, by simp [hb]⟩
    · exact ⟨_, _, rfl, by decide⟩
  obtain ⟨b', tail, hcons', hskip, -⟩ :=
    skipSpace_valueText 0 (v := .number (.whole n lower upper)) trivial (0x22 :: rest)
  have hend : EndsNumber (0x22 :: rest) := by
    intro c hc
    obtain rfl : 0x22 = c := by simpa using hc
    decide
  have hwhole := wholeBetween_whole low high hlow hhigh lower upper expected
    (by rw [hskip, ← hcons']) hend
  have hdrop : (stringText n.repr ++ rest).drop 1 =
      valueText 0 (.number (.whole n lower upper)) ++ 0x22 :: rest := by
    simp [stringText_repr lower upper 0]
  rw [wholeKey, hdrop]
  rw [hcons] at hwhole ⊢
  simp only [List.cons_append] at hwhole ⊢
  simp [hb, hwhole, bind, Except.bind, pure, Except.pure]

instance : FaithfulKey Int8 where
  key k := .int (Int64.ofInt k.toInt)
  name k := k.toInt.repr
  capture_describe k := by
    have hlow := k.le_toInt
    have hhigh := k.toInt_lt
    refine ⟨.int (Int64.ofInt k.toInt), ?_, rfl⟩
    show Program.capture (.integer (.signed .w8) k.toInt) = _
    rw [Program.capture, IntKind.toNode_signed _ (by omega) (by omega)]
  name_key k := by
    have hlow := k.le_toInt
    have hhigh := k.toInt_lt
    rw [Key.name, Int64.toInt_ofInt_of_le (by omega) (by omega)]
  name_injective k l h := Int8.toInt_inj.1 (Int.repr_injective h)
  readKey_name k rest := by
    have hlow := k.le_toInt
    have hhigh := k.toInt_lt
    have hkey := wholeKey_stringText (n := k.toInt) (-128) 127 (by omega) (by omega) (by omega)
      (by omega) "i8" rest
    show (wholeKey (-128) 127 "i8" (stringText k.toInt.repr ++ rest) >>= fun (n, left) =>
      pure (Int8.ofInt n, left)) = .ok (k, rest)
    rw [hkey]
    simp [bind, Except.bind, pure, Except.pure]

/-! ## Entries -/

section

variable [Describe κ] [DecodableKey κ] [FaithfulKey κ] [Describe α] [Decodable α] [Faithful α]

/-- An entry as it is captured. -/
def entryNode (entry : κ × α) : Key × Node := (FaithfulKey.key entry.1, Faithful.node entry.2)

/-- An entry as a member of an object. -/
def entryImage (entry : κ × α) : String × Json :=
  (FaithfulKey.name entry.1, Faithful.image entry.2)

theorem captureCalls_ofEntries (entries : List (κ × α)) :
    Program.captureCalls none
        (MapCall.ofEntries (entries.map fun (k, v) => (describe k, describe v))) =
      .ok (entries.map entryNode) := by
  induction entries with
  | nil => rfl
  | cons entry entries ih =>
    obtain ⟨k, v⟩ := entry
    obtain ⟨n, hcapture, hkey⟩ := FaithfulKey.capture_describe k
    have hcalls : MapCall.ofEntries (((k, v) :: entries).map fun (k, v) => (describe k, describe v)) =
        .key (describe k) :: .value (describe v) ::
          MapCall.ofEntries (entries.map fun (k, v) => (describe k, describe v)) := rfl
    rw [hcalls, Program.captureCalls, hcapture]
    simp only [bind, Except.bind]
    rw [Program.captureCalls, Faithful.capture_describe, hkey]
    simp only [bind, Except.bind]
    rw [ih]
    rfl

theorem encode_entries (e : Encoder) (budget : Nat) (entries : List (κ × α))
    (hbudget : depthMembers (entries.map entryImage) < budget) :
    List.Forall₂ (fun entry member =>
      entry.1.name = .ok member.1 ∧ e.encode budget 0 entry.2 = pure member.2)
      (entries.map entryNode) (entries.map entryImage) := by
  induction entries with
  | nil => exact .nil
  | cons entry entries ih =>
    rw [List.map_cons, entryImage, depthMembers] at hbudget
    exact .cons ⟨FaithfulKey.name_key entry.1, Faithful.encode_node entry.2 e 0 (by omega)⟩
      (ih (by omega))

theorem floatFreeMembers_entries (entries : List (κ × α)) :
    FloatFreeMembers (entries.map entryImage) := by
  induction entries with
  | nil => trivial
  | cons entry entries ih => exact ⟨Faithful.floatFree_image entry.2, ih⟩

variable [Ord κ] [Std.TransOrd κ]

/-- **Each entry that was written is inserted.** -/
theorem readsMembers_entries (entries : List (κ × α)) (m : Std.ExtTreeMap κ α compare) :
    ReadsMembers (Reader.entry DecodableKey.readKey Decodable.read) level m
      (entries.map entryImage) (entries.foldl (fun m entry => m.insert entry.1 entry.2) m) := by
  induction entries generalizing m with
  | nil => exact .nil m
  | cons entry entries ih =>
    obtain ⟨k, v⟩ := entry
    refine .cons (fun rest hend => ?_) (ih (m.insert k v))
    have hkey := FaithfulKey.readKey_name k
      (0x3A :: 0x20 :: (valueText level (Faithful.image v) ++ rest))
    have hname : nameText (FaithfulKey.name k) ++ (valueText level (Faithful.image v) ++ rest) =
        stringText (FaithfulKey.name k) ++
          (0x3A :: 0x20 :: (valueText level (Faithful.image v) ++ rest)) := by
      simp [nameText]
    rw [hname, Reader.entry, hkey]
    exact Faithful.read_behind_colon v (m.insert k) hend

/-! ## Maps -/

variable [Std.LawfulEqOrd κ]

/-- **The entries of a map have names of their own.** -/
theorem nodup_names (m : Std.ExtTreeMap κ α compare) :
    ((m.toList.map entryImage).map (·.1)).Nodup := by
  rw [List.map_map, List.Nodup, List.pairwise_map]
  refine Std.ExtTreeMap.distinct_keys_toList.imp fun {entry other} hne hsame => hne ?_
  rw [FaithfulKey.name_injective _ _ hsame]
  exact Std.ReflCmp.compare_self

omit [Describe κ] [DecodableKey κ] [FaithfulKey κ] [Describe α] [Decodable α] [Faithful α] in
/-- **A map is what comes of inserting its entries** into an empty one. -/
theorem foldl_insert_toList (m : Std.ExtTreeMap κ α compare) :
    m.toList.foldl (fun m entry => m.insert entry.1 entry.2) ∅ = m := by
  have hmany : ∀ (entries : List (κ × α)) (m : Std.ExtTreeMap κ α compare),
      entries.foldl (fun m entry => m.insert entry.1 entry.2) m = m.insertMany entries := by
    intro entries
    induction entries with
    | nil => exact fun m => Std.ExtTreeMap.insertMany_nil.symm
    | cons entry entries ih =>
      intro m
      rw [List.foldl_cons, ih, Std.ExtTreeMap.insertMany_cons]
  -- no key comes twice, so what is looked up is the entry itself, or there is none
  rw [hmany, ← Std.ExtTreeMap.ofList_eq_insertMany_empty]
  refine Std.ExtTreeMap.ext_getElem? fun k => ?_
  cases hk : m[k]? with
  | some v =>
    exact Std.ExtTreeMap.getElem?_ofList_of_mem Std.ReflCmp.compare_self
      Std.ExtTreeMap.distinct_keys_toList (Std.ExtTreeMap.mem_toList_iff_getElem?_eq_some.2 hk)
  | none =>
    classical
    refine Std.ExtTreeMap.getElem?_ofList_of_contains_eq_false ?_
    rw [List.contains_eq_mem, decide_eq_false_iff_not]
    intro hmem
    obtain ⟨⟨l, v⟩, hentry, rfl⟩ := List.mem_map.1 hmem
    rw [Std.ExtTreeMap.mem_toList_iff_getElem?_eq_some.1 hentry] at hk
    cases hk

instance : Faithful (Std.ExtTreeMap κ α compare) where
  node m := .object (m.toList.map entryNode)
  image m := .object (m.toList.map entryImage)
  capture_describe m := by
    show Program.capture (.map (some m.size) (MapCall.ofEntries _)) = _
    rw [Program.capture, captureCalls_ofEntries]
    rfl
  encode_succ m e budget chain hbudget := by
    rw [Json.depth] at hbudget
    rw [Encoder.encode, Encoder.encodeEntries_eq_pure
      (encode_entries e budget m.toList (by omega)) (nodup_names m), pure_bind]
  floatFree_image m := floatFreeMembers_entries m.toList
  reads_image m level left rest hleft _ := by
    obtain ⟨body, htext, hfields⟩ :=
      fields_of_reads (readsMembers_entries m.toList (∅ : Std.ExtTreeMap κ α compare)) rest
    rw [htext] at hleft
    rw [foldl_insert_toList] at hfields
    simp [Decodable.read, Reader.map, hleft, hfields]

end

/-! ## Configurations -/

namespace Config

/-- A configuration as it is captured, field by field. -/
def entries (c : Config) : List (Key × Node) :=
  [(.string "name", Faithful.node c.name), (.string "port", Faithful.node c.port),
    (.string "tags", Faithful.node c.tags)]

/-- A configuration as the members of an object. -/
def members (c : Config) : List (String × Json) :=
  [("name", Faithful.image c.name), ("port", Faithful.image c.port),
    ("tags", Faithful.image c.tags)]

/-- **Each field that was written is read**, none of them twice. -/
theorem readsMembers_members (c : Config) :
    ReadsMembers readField level {} c.members
      { name := some c.name, port := some c.port, tags := some c.tags } := by
  have hname : ∀ rest, EndsNumber rest →
      readField {} (nameText "name" ++ (valueText level (Faithful.image c.name) ++ rest)) =
        .ok ({ name := some c.name }, rest) := by
    intro rest hend
    rw [readField, string_nameText]
    exact Faithful.read_behind_colon c.name (fun v => Partial.mk (some v) none none) hend
  have hport : ∀ rest, EndsNumber rest →
      readField { name := some c.name }
          (nameText "port" ++ (valueText level (Faithful.image c.port) ++ rest)) =
        .ok ({ name := some c.name, port := some c.port }, rest) := by
    intro rest hend
    rw [readField, string_nameText]
    exact Faithful.read_behind_colon c.port (fun v => Partial.mk (some c.name) (some v) none) hend
  have htags : ∀ rest, EndsNumber rest →
      readField { name := some c.name, port := some c.port }
          (nameText "tags" ++ (valueText level (Faithful.image c.tags) ++ rest)) =
        .ok ({ name := some c.name, port := some c.port, tags := some c.tags }, rest) := by
    intro rest hend
    rw [readField, string_nameText]
    exact Faithful.read_behind_colon c.tags
      (fun v => Partial.mk (some c.name) (some c.port) (some v)) hend
  exact .cons hname (.cons hport (.cons htags (.nil _)))

theorem encode_entries (e : Encoder) (budget : Nat) (c : Config)
    (hbudget : depthMembers c.members < budget) :
    List.Forall₂ (fun entry member =>
      entry.1.name = .ok member.1 ∧ e.encode budget 0 entry.2 = pure member.2)
      c.entries c.members := by
  simp only [members, depthMembers] at hbudget
  exact .cons ⟨rfl, Faithful.encode_node c.name e 0 (by omega)⟩ <|
    .cons ⟨rfl, Faithful.encode_node c.port e 0 (by omega)⟩ <|
    .cons ⟨rfl, Faithful.encode_node c.tags e 0 (by omega)⟩ .nil

end Config

instance : Faithful Config where
  node c := .object c.entries
  image c := .object c.members
  capture_describe c := by
    show Program.capture (.product "Config" [.given "name" (describe c.name),
      .given "port" (describe c.port), .given "tags" (describe c.tags)]) = _
    simp only [Program.capture, Program.captureFields, Faithful.capture_describe]
    rfl
  encode_succ c e budget chain hbudget := by
    rw [Json.depth] at hbudget
    rw [Encoder.encode, Encoder.encodeEntries_eq_pure
      (Config.encode_entries e budget c (by omega)) (by simp [Config.members]), pure_bind]
  floatFree_image c := ⟨Faithful.floatFree_image c.name, Faithful.floatFree_image c.port,
    Faithful.floatFree_image c.tags, trivial⟩
  reads_image c level left rest hleft _ := by
    obtain ⟨body, htext, hfields⟩ := fields_of_reads (Config.readsMembers_members c) rest
    rw [htext] at hleft
    simp [Decodable.read, Config.read, hleft, hfields, bind, Except.bind, Config.Partial.complete]

end DocStore
