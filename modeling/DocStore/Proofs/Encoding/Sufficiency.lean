import DocStore.Proofs.Encoding.Substitutes
/-!
# A budget for the stock encoders

Each substitute of a stock encoder has a smaller height than what it stands for,
but for a record that renders to itself, and the limit ends that. So the height of
a node, substitutes included, is a budget within which a stock encoder returns.
-/

namespace DocStore

namespace Node

mutual

/-- **The height of a node with its substitutes**, at most. A record that renders
to itself goes down to the limit. -/
def height : Node → Nat
  | .array items => heightAll items + 1
  | .object entries => heightEntries entries + 1
  | .set items => heightAll items + 2
  | .record _ rendering => heightRendering rendering + 1
  | .null | .bool _ | .int _ | .uint _ | .float _ | .string _ => 1
  | .timestamp _ | .duration _ | .bytes _ | .foreign _ _ => 3

/-- The height of what a record renders to. -/
def heightRendering : Option Node → Nat
  | some n => height n
  | none => Encoder.chainLimit

/-- The height of the highest element. -/
def heightAll : List Node → Nat
  | [] => 0
  | v :: rest => max (height v) (heightAll rest)

/-- The height of the highest value. -/
def heightEntries : List (Key × Node) → Nat
  | [] => 0
  | (_, v) :: rest => max (height v) (heightEntries rest)

end

theorem height_pos (n : Node) : 0 < n.height := by
  cases n <;> simp [height]

theorem height_le_heightAll {items : List Node} {v : Node} (h : v ∈ items) :
    v.height ≤ heightAll items := by
  induction items with
  | nil => cases h
  | cons u rest ih =>
    rw [heightAll]
    rcases List.mem_cons.1 h with rfl | h
    · exact Nat.le_max_left ..
    · exact Nat.le_trans (ih h) (Nat.le_max_right ..)

theorem height_le_heightEntries {entries : List (Key × Node)} {entry : Key × Node}
    (h : entry ∈ entries) : entry.2.height ≤ heightEntries entries := by
  induction entries with
  | nil => cases h
  | cons other rest ih =>
    rw [heightEntries]
    rcases List.mem_cons.1 h with rfl | h
    · exact Nat.le_max_left ..
    · exact Nat.le_trans (ih h) (Nat.le_max_right ..)

end Node

namespace Encoder

/-- **The stock encoders.** -/
inductive Stock : Encoder → Prop
  | strict : Stock strict
  | standard : Stock standard
  | extended : Stock extended

variable {e : Encoder} {n substitute : Node} {budget chain : Nat}

theorem height_described (n : Node) : (described n).height = 2 := rfl

theorem height_inSeconds (d : Duration) : (inSeconds d).height = 2 := rfl

/-- What a record renders to has a smaller height, or is the record. -/
theorem height_rendered (tag : RecordTag) (rendering : Option Node) :
    (Node.rendered tag rendering).height < (Node.record tag rendering).height ∨
      Node.rendered tag rendering = .record tag rendering ∧
        chainLimit < (Node.record tag rendering).height := by
  cases rendering with
  | some n => exact Or.inl (Nat.lt_succ_self _)
  | none => exact Or.inr ⟨rfl, Nat.lt_succ_self _⟩

/-- **What stands for a value under the stock encoders**, where anything does. -/
inductive Substitutes : Node → Node → Prop
  | record (tag : RecordTag) (rendering : Option Node) :
      Substitutes (.record tag rendering) (Node.rendered tag rendering)
  | set (items : List Node) : Substitutes (.set items) (.array items)
  | timestamp (t : Timestamp) : Substitutes (.timestamp t) (.string t.text)
  | duration (d : Duration) : Substitutes (.duration d) (inSeconds d)
  | bytes (bs : List UInt8) : Substitutes (.bytes bs) (described (.bytes bs))
  | foreign (typeName repr : String) :
      Substitutes (.foreign typeName repr) (described (.foreign typeName repr))

theorem Stock.substitutes (he : e.Stock) (hnative : n.isNative = false)
    (hsubstitute : e.fallback n = some substitute) : Substitutes n substitute := by
  cases he with
  | strict => cases hsubstitute
  | standard =>
    cases n with
    | record _ _ | set _ | timestamp _ => cases hsubstitute; constructor
    | duration _ | bytes _ | foreign _ _ => cases hsubstitute
    | _ => cases hnative
  | extended =>
    cases n with
    | record _ _ | set _ | timestamp _ | duration _ | bytes _ | foreign _ _ =>
      cases hsubstitute; constructor
    | _ => cases hnative

/-- **A substitute of a stock encoder has a smaller height**, or is the record
itself. -/
theorem Stock.height_lt (he : e.Stock) (hnative : n.isNative = false)
    (hsubstitute : e.fallback n = some substitute) :
    substitute.height < n.height ∨ substitute = n ∧ chainLimit < n.height := by
  cases he.substitutes hnative hsubstitute with
  | record tag rendering => exact height_rendered tag rendering
  | set items => exact Or.inl (Nat.lt_succ_self _)
  | timestamp _ | duration _ | bytes _ | foreign _ _ =>
    exact Or.inl (by simp [Node.height, height_described, height_inSeconds])

/-! ## Encoding returns -/

theorem isSome_bind {α β : Type} {x : Attempt α} {k : α → Attempt β} (hx : x.run.isSome)
    (hk : ∀ a, (k a).run.isSome) : (x >>= k).run.isSome := by
  obtain ⟨result, hresult⟩ := Option.isSome_iff_exists.1 hx
  cases result with
  | error fault =>
    exact Option.isSome_iff_exists.2
      ⟨.error fault, run_bind_eq_some.2 (Or.inl ⟨fault, hresult, rfl⟩)⟩
  | ok a =>
    obtain ⟨last, hlast⟩ := Option.isSome_iff_exists.1 (hk a)
    exact Option.isSome_iff_exists.2 ⟨last, run_bind_eq_some.2 (Or.inr ⟨a, hresult, hlast⟩)⟩

variable {f : Node → Attempt Json}

theorem isSome_encodeItems {items : List Node} (h : ∀ v ∈ items, (f v).run.isSome) :
    (encodeItems f items).run.isSome := by
  induction items with
  | nil => rfl
  | cons v rest ih =>
    obtain ⟨hv, hrest⟩ := List.forall_mem_cons.1 h
    rw [encodeItems]
    exact isSome_bind hv fun _ => isSome_bind (ih hrest) fun _ => rfl

theorem isSome_encodeEntries {entries : List (Key × Node)} (taken : List String)
    (h : ∀ entry ∈ entries, (f entry.2).run.isSome) :
    (encodeEntries f taken entries).run.isSome := by
  induction entries generalizing taken with
  | nil => rfl
  | cons entry rest ih =>
    obtain ⟨key, v⟩ := entry
    obtain ⟨hv, hrest⟩ := List.forall_mem_cons.1 h
    rw [encodeEntries]
    split
    · rfl
    · split
      · rfl
      · exact isSome_bind hv fun _ => isSome_bind (ih _ hrest) fun _ => rfl

theorem Stock.isSome_encode (he : e.Stock) (hbudget : n.height ≤ budget)
    (hchain : chain ≤ chainLimit) : (e.encode budget chain n).run.isSome := by
  induction budget generalizing n chain with
  | zero => exact absurd n.height_pos (by omega)
  | succ budget ih =>
    cases hnative : n.isNative with
    | true =>
      cases n with
      | array items =>
        rw [Node.height] at hbudget
        refine isSome_bind (isSome_encodeItems fun v hv => ih ?_ (Nat.zero_le _)) fun _ => rfl
        exact Nat.le_trans (Node.height_le_heightAll hv) (by omega)
      | object entries =>
        rw [Node.height] at hbudget
        refine isSome_bind
          (isSome_encodeEntries [] fun entry hentry => ih ?_ (Nat.zero_le _)) fun _ => rfl
        exact Nat.le_trans (Node.height_le_heightEntries hentry) (by omega)
      | float x =>
        rw [encode]
        split <;> rfl
      | null | bool _ | int _ | uint _ | string _ => rfl
      | _ => cases hnative
    | false =>
      rw [encode_of_not_native hnative]
      split
      · rfl
      · split
        next substitute hsubstitute =>
          rcases he.height_lt hnative hsubstitute with hlt | ⟨rfl, hhigh⟩
          · exact ih (by omega) (by omega)
          · -- the record stays as high as it is, but comes to the limit
            rw [encode_of_own hnative hsubstitute (by omega) (by omega)]
            rfl
        next => rfl

/-- **A stock encoder returns on every node**, within any budget from its height
on. -/
theorem Stock.isSome_toJson (he : e.Stock) (hbudget : n.height ≤ budget) :
    (e.toJson budget n).isSome :=
  he.isSome_encode hbudget (Nat.zero_le _)

end Encoder

end DocStore
