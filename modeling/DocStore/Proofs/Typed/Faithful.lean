import DocStore.Capture.Describe
import DocStore.Proofs.Encoding.Values
import DocStore.Proofs.Json.ReadBack
import DocStore.Typed.Decode
/-!
# Types whose values are read back

A type is `Faithful` if each of its values has a JSON form, which every encoder gives
the value that was captured, and from which the reader of the type takes the value
back. Numbers, texts and the like are faithful on their own; options, lists and pairs
are if their parts are.
-/

namespace DocStore

open Json Reader

variable {α β : Type} {left rest : List UInt8} {level : Nat} {n : Int}

/-! ## What readers of types take -/

namespace Reader

/-- Where a whole number stands, a number is read. -/
theorem numberOr_whole (lower : -0x8000000000000000 ≤ n) (upper : n < 0x10000000000000000)
    (expected : String)
    (hleft : skipSpace left = valueText level (.number (.whole n lower upper)) ++ rest)
    (hend : EndsNumber rest) :
    numberOr expected left = .ok (.whole n lower upper, rest) := by
  obtain ⟨hnonneg, hneg⟩ := number_whole lower upper hend
  rw [valueText_whole] at hleft
  simp only [numberOr, hleft]
  -- the reader takes a sign on its own, so the cases are those of the sign
  split at hleft
  next hsign =>
    obtain ⟨b, bs, hcons, hb⟩ := exists_digitBytes_cons n.toNat
    have hminus : b ≠ 0x2D := by
      rintro rfl
      exact absurd hb (by decide)
    have hread := hnonneg hsign
    rw [if_pos hsign]
    rw [hcons, List.cons_append] at hread ⊢
    simp [hminus, hb, hread]
  next hsign =>
    rw [if_neg hsign, List.cons_append]
    exact hneg (by omega)

/-- **A whole number within bounds is read back.** -/
theorem wholeBetween_whole (low high : Int) (hlow : low ≤ n) (hhigh : n ≤ high)
    (lower : -0x8000000000000000 ≤ n) (upper : n < 0x10000000000000000) (expected : String)
    (hleft : skipSpace left = valueText level (.number (.whole n lower upper)) ++ rest)
    (hend : EndsNumber rest) :
    wholeBetween low high expected left = .ok (n, rest) := by
  simp [wholeBetween, numberOr_whole lower upper expected hleft hend, bind, Except.bind, hlow,
    hhigh, pure, Except.pure]

theorem element_zero {item : Reader α} {v : Json} {x : α} (h : Reads item level v x)
    (hfree : FloatFree v) (expected : String) (hend : EndsNumber rest) :
    element 0 expected item (newLineText level ++ (valueText level v ++ rest)) =
      .ok (x, rest) := by
  obtain ⟨b, tail, hcons, hskip, hb⟩ := skipSpace_valueText level hfree rest
  have hread := (h.read_valueText hfree hend).1
  rw [hcons] at hread
  simp [element, skipSpace_newLineText, hskip, hb, hread]

theorem element_succ {item : Reader α} {v : Json} {x : α} (h : Reads item level v x)
    (hfree : FloatFree v) (index : Nat) (expected : String) (hend : EndsNumber rest) :
    element (index + 1) expected item
      (0x2C :: (newLineText level ++ (valueText level v ++ rest))) = .ok (x, rest) := by
  obtain ⟨b, tail, hcons, hskip, hb⟩ := skipSpace_valueText level hfree rest
  have hread := (h.read_valueText hfree hend).1
  rw [hcons] at hread
  simp [element, skipSpace_cons (b := 0x2C) (by decide), skipSpace_newLineText, hskip, hb, hread]

theorem closeList_newLineText (level : Nat) (rest : List UInt8) :
    closeList (newLineText level ++ 0x5D :: rest) = .ok rest := by
  simp [closeList, skipSpace_newLineText, skipSpace_cons (b := 0x5D) (by decide)]

end Reader

/-- A whole number of 64 bits with a sign is a signed node, whatever its kind. -/
theorem IntKind.toNode_signed (kind : IntKind) (lower : -0x8000000000000000 ≤ n)
    (upper : n < 0x8000000000000000) : kind.toNode n = .int (Int64.ofInt n) := by
  simp [IntKind.toNode, Node.ofInt?, lower, upper]

/-! ## Faithful types -/

/-- **A type whose values are read back** from what they are written as. -/
class Faithful (α : Type) [Describe α] [Decodable α] where
  /-- The node that a value is captured as. -/
  node : α → Node
  /-- The JSON form of a value. -/
  image : α → Json
  capture_describe : ∀ x : α, (describe x).capture = .ok (node x)
  encode_succ : ∀ (x : α) (e : Encoder) (budget chain : Nat), (image x).depth ≤ budget →
    e.encode (budget + 1) chain (node x) = pure (image x)
  floatFree_image : ∀ x : α, FloatFree (image x)
  reads_image : ∀ (x : α) (level : Nat), Reads Decodable.read level (image x) x

namespace Faithful

/-- With a budget beyond the depth of its form, a value is encoded. -/
theorem encode_node [Describe α] [Decodable α] [Faithful α] (x : α) (e : Encoder)
    {budget : Nat} (chain : Nat) (h : (image x).depth < budget) :
    e.encode budget chain (node x) = pure (image x) := by
  obtain ⟨budget, rfl⟩ : ∃ b, budget = b + 1 := ⟨budget - 1, by omega⟩
  exact encode_succ x e budget chain (by omega)

/-- Behind its colon a value is read and put where it belongs. -/
theorem read_behind_colon {σ : Type} [Describe α] [Decodable α] [Faithful α] (x : α)
    (put : α → σ) (hend : EndsNumber rest) :
    (do let (v, left) ← Decodable.read
          (← colon (0x3A :: 0x20 :: (valueText level (image x) ++ rest)))
        pure (put v, left)) = Except.ok (ε := Fault) (put x, rest) := by
  have hread := ((reads_image x level).read_valueText (floatFree_image x) hend).2
  simp [colon_cons, hread, bind, Except.bind, pure, Except.pure]

/-! ## Whole numbers -/

/-- **A type of whole numbers** within 64 bits with a sign is faithful if its reader takes
them. -/
abbrev ofWhole [Describe α] [Decodable α] (kind : IntKind) (toInt : α → Int)
    (lower : ∀ x, -0x8000000000000000 ≤ toInt x) (upper : ∀ x, toInt x < 0x8000000000000000)
    (hdescribe : ∀ x : α, describe x = .integer kind (toInt x))
    (hread : ∀ (x : α) (level : Nat) (left rest : List UInt8),
      skipSpace left = valueText level (.number (.whole (toInt x) (lower x)
        (Int.lt_trans (upper x) (by decide)))) ++ rest →
      EndsNumber rest → Decodable.read left = .ok (x, rest)) : Faithful α where
  node x := .int (Int64.ofInt (toInt x))
  image x := .number (.whole (toInt x) (lower x) (Int.lt_trans (upper x) (by decide)))
  capture_describe x := by
    rw [hdescribe, Program.capture, kind.toNode_signed (lower x) (upper x)]
  encode_succ x e budget chain _ := by
    have hnode := Number.encode_ofNumber e budget chain
      (.whole (toInt x) (lower x) (Int.lt_trans (upper x) (by decide)))
    rwa [Node.ofNumber, if_pos (upper x)] at hnode
  floatFree_image x := trivial
  reads_image x level left rest := hread x level left rest

instance : Faithful Int64 :=
  ofWhole (.signed .w64) Int64.toInt Int64.le_toInt (fun x => by have := x.toInt_lt; omega)
    (fun _ => rfl) fun x level left rest hleft hend => by
      have hwhole := wholeBetween_whole (-0x8000000000000000) 0x7FFFFFFFFFFFFFFF
        (Int64.le_toInt x) (by have := x.toInt_lt; omega) _ _ "i64" hleft hend
      simp [Decodable.read, hwhole, bind, Except.bind, pure, Except.pure]

instance : Faithful UInt8 :=
  ofWhole (.unsigned .w8) (fun x => x.toNat) (fun _ => by omega)
    (fun x => by have := x.toNat_lt; omega) (fun _ => rfl) fun x level left rest hleft hend => by
      have hwhole := wholeBetween_whole 0 255 (by omega)
        (by have := x.toNat_lt; omega) _ _ "u8" hleft hend
      simp [Decodable.read, hwhole, bind, Except.bind, pure, Except.pure]

instance : Faithful UInt16 :=
  ofWhole (.unsigned .w16) (fun x => x.toNat) (fun _ => by omega)
    (fun x => by have := x.toNat_lt; omega) (fun _ => rfl) fun x level left rest hleft hend => by
      have hwhole := wholeBetween_whole 0 65535 (by omega)
        (by have := x.toNat_lt; omega) _ _ "u16" hleft hend
      simp [Decodable.read, hwhole, bind, Except.bind, pure, Except.pure]

/-! ## Other scalars -/

instance : Faithful Bool where
  node := .bool
  image := .bool
  capture_describe _ := rfl
  encode_succ _ _ _ _ _ := rfl
  floatFree_image _ := trivial
  reads_image x level left rest hleft _ := by
    cases x <;> simp only [Decodable.read, hleft] <;> rfl

instance : Faithful String where
  node := .string
  image := .string
  capture_describe _ := rfl
  encode_succ _ _ _ _ _ := rfl
  floatFree_image _ := trivial
  reads_image x level left rest hleft _ := by
    simp only [Decodable.read, hleft]
    exact string_stringText x rest

instance : Faithful Unit where
  node _ := .null
  image _ := .null
  capture_describe _ := rfl
  encode_succ _ _ _ _ _ := rfl
  floatFree_image _ := trivial
  reads_image x level left rest hleft _ := by
    simp only [Decodable.read, hleft]
    rfl

/-! ## Options -/

/-- **A type whose values are never written as null.** -/
class Present (α : Type) [Describe α] [Decodable α] [Faithful α] : Prop where
  image_ne_null : ∀ x : α, image x ≠ .null

instance : Present Int64 := ⟨fun _ h => by cases h⟩

section

variable [Describe α] [Decodable α] [Faithful α]

/-- An option is read as absent where null is, and as its value everywhere else. -/
theorem reads_option [Present α] (x : Option α) (level : Nat) :
    Reads Decodable.read level (x.elim .null image) x := by
  intro left rest hleft hend
  cases x with
  | none =>
    simp only [Option.elim] at hleft
    simp only [Decodable.read, hleft]
    rfl
  | some x =>
    have hread := reads_image x level left rest hleft hend
    obtain ⟨b, bs, hcons, -⟩ := exists_valueText_cons level (floatFree_image x)
    have hb : b ≠ 0x6E := by
      rintro rfl
      exact valueText_ne_null level (floatFree_image x) (Present.image_ne_null x) bs hcons
    simp only [Option.elim, hcons, List.cons_append] at hleft
    simp [Decodable.read, hleft, hb, hread, Functor.map, Except.map]

instance [Present α] : Faithful (Option α) where
  node x := x.elim .null node
  image x := x.elim .null image
  capture_describe
    | none => rfl
    | some x => capture_describe x
  encode_succ
    | none => fun _ _ _ _ => rfl
    | some x => encode_succ x
  floatFree_image
    | none => trivial
    | some x => floatFree_image x
  reads_image := reads_option

/-! ## Lists -/

theorem captureItems_map (xs : List α) :
    Program.captureItems (xs.map describe) = .ok (xs.map node) := by
  induction xs with
  | nil => rfl
  | cons x xs ih =>
    rw [List.map_cons, Program.captureItems, capture_describe, ih]
    rfl

theorem encode_map (e : Encoder) (budget : Nat) (xs : List α)
    (hbudget : depthAll (xs.map image) < budget) :
    List.Forall₂ (fun v w => e.encode budget 0 v = pure w) (xs.map node) (xs.map image) := by
  induction xs with
  | nil => exact .nil
  | cons x xs ih =>
    rw [List.map_cons, depthAll] at hbudget
    exact .cons (encode_node x e 0 (by omega)) (ih (by omega))

theorem floatFreeAll_map (xs : List α) : FloatFreeAll (xs.map image) := by
  induction xs with
  | nil => trivial
  | cons x xs ih => exact ⟨floatFree_image x, ih⟩

instance : Faithful (List α) where
  node xs := .array (xs.map node)
  image xs := .array (xs.map image)
  capture_describe xs := by
    show Program.capture (.list (some xs.length) (xs.map describe)) = _
    rw [Program.capture, captureItems_map]
    rfl
  encode_succ xs e budget chain hbudget := by
    rw [Json.depth] at hbudget
    rw [Encoder.encode, Encoder.encodeItems_eq_pure (encode_map e budget xs (by omega)), pure_bind]
  floatFree_image xs := floatFreeAll_map xs
  reads_image xs level left rest hleft _ := by
    have hitems : List.Forall₂ (Reads Decodable.read (level + 1)) (xs.map image) xs := by
      rw [List.forall₂_map_left_iff, List.forall₂_same]
      exact fun x _ => reads_image x (level + 1)
    obtain ⟨body, htext, hread⟩ := items_of_reads hitems (floatFreeAll_map xs) rest
    rw [htext] at hleft
    simp [Decodable.read, Reader.list, hleft, hread]

/-! ## Pairs -/

variable [Describe β] [Decodable β] [Faithful β]

theorem encode_pair (x : α × β) (e : Encoder) (budget chain : Nat)
    (hbudget : (Json.array [image x.1, image x.2]).depth ≤ budget) :
    e.encode (budget + 1) chain (.array [node x.1, node x.2]) =
      pure (.array [image x.1, image x.2]) := by
  simp only [Json.depth, depthAll] at hbudget
  rw [Encoder.encode, Encoder.encodeItems, encode_node x.1 e 0 (by omega), pure_bind,
    Encoder.encodeItems, encode_node x.2 e 0 (by omega), pure_bind]
  rfl

instance : Faithful (α × β) where
  node x := .array [node x.1, node x.2]
  image x := .array [image x.1, image x.2]
  capture_describe x := by
    show Program.capture (.tuple [describe x.1, describe x.2]) = _
    rw [Program.capture, Program.captureItems, capture_describe, Program.captureItems,
      capture_describe]
    rfl
  encode_succ := encode_pair
  floatFree_image x := ⟨floatFree_image x.1, floatFree_image x.2, trivial⟩
  reads_image x level left rest hleft _ := by
    have hclosing : EndsNumber (newLineText level ++ 0x5D :: rest) := endsNumber_cons (Or.inr rfl)
    have hfirst := element_zero (reads_image x.1 (level + 1)) (floatFree_image x.1)
      "a tuple of size 2" (endsNumber_itemsText (level + 1) [image x.2] hclosing)
    have hsecond := element_succ (reads_image x.2 (level + 1)) (floatFree_image x.2) 0
      "a tuple of size 2" hclosing
    simp only [itemsText, List.cons_append, List.append_assoc, List.nil_append] at hfirst
    simp only [valueText, itemsText, List.cons_append, List.append_assoc, List.nil_append] at hleft
    simp [Decodable.read, Reader.pair, hleft, hfirst, hsecond, closeList_newLineText, bind,
      Except.bind, pure, Except.pure]

end

end Faithful

end DocStore
