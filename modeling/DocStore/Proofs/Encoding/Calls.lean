import DocStore.Proofs.Encoding.Sufficiency
/-!
# How many calls encoding makes

Encoding calls itself for each element, for each value, and for each substitute, and
ends at the first fault. What is counted here is how often (`Encoder.calls`). A stock
encoder has a substitute that takes fewer calls than what it stands for, or the record
itself, which takes one call for each substitute that the limit still allows. So there
are never more calls than a number that the node alone gives (`Stock.calls_le`), however
large the budget is.
-/

namespace DocStore

namespace Encoder

/-! ## Counting calls -/

/-- The calls for elements: those behind the first that does not encode are not made. -/
def callsInItems (encode : Node → Attempt Json) (count : Node → Nat) : List Node → Nat
  | [] => 0
  | v :: rest =>
    count v + match (encode v).run with
      | some (.ok _) => callsInItems encode count rest
      | _ => 0

/-- The calls for values: none for those from a bad key on, or behind the first that does
not encode. -/
def callsInEntries (encode : Node → Attempt Json) (count : Node → Nat) :
    (taken : List String) → List (Key × Node) → Nat
  | _, [] => 0
  | taken, (key, v) :: rest =>
    match key.name with
    | .error _ => 0
    | .ok name =>
      if name ∈ taken then 0
      else count v + match (encode v).run with
        | some (.ok _) => callsInEntries encode count (name :: taken) rest
        | _ => 0

/-- **How many calls it takes to encode a node**, its own among them. -/
def calls (e : Encoder) : (budget chain : Nat) → Node → Nat
  | 0, _, _ => 1
  | budget + 1, chain, n =>
    match n with
    | .null | .bool _ | .int _ | .uint _ | .float _ | .string _ => 1
    | .array items => callsInItems (e.encode budget 0) (e.calls budget 0) items + 1
    | .object entries => callsInEntries (e.encode budget 0) (e.calls budget 0) [] entries + 1
    | n =>
      if chainLimit ≤ chain then 1
      else match e.fallback n with
        | some substitute => e.calls budget (chain + 1) substitute + 1
        | none => 1

end Encoder

namespace Node

mutual

/-- **How many calls a node takes at most** under a stock encoder. A record that renders
to itself takes one for itself and one for each substitute that the limit allows. -/
def callsAtMost : Node → Nat
  | .array items => callsAtMostAll items + 1
  | .object entries => callsAtMostEntries entries + 1
  | .set items => callsAtMostAll items + 2
  | .record _ rendering => callsAtMostRendering rendering + 1
  | .null | .bool _ | .int _ | .uint _ | .float _ | .string _ => 1
  | .timestamp _ => 2
  | .duration _ | .bytes _ | .foreign _ _ => 4

/-- The calls for what a record renders to. -/
def callsAtMostRendering : Option Node → Nat
  | some n => callsAtMost n
  | none => Encoder.chainLimit

/-- The calls for all elements. -/
def callsAtMostAll : List Node → Nat
  | [] => 0
  | v :: rest => callsAtMost v + callsAtMostAll rest

/-- The calls for all values. -/
def callsAtMostEntries : List (Key × Node) → Nat
  | [] => 0
  | (_, v) :: rest => callsAtMost v + callsAtMostEntries rest

end

theorem callsAtMost_pos (n : Node) : 0 < n.callsAtMost := by
  cases n <;> simp [callsAtMost]

end Node

namespace Encoder

open Node

variable {e : Encoder} {n substitute : Node} {budget chain : Nat}
variable {encode : Node → Attempt Json} {count : Node → Nat}

theorem callsInItems_le {items : List Node} (h : ∀ v, count v ≤ v.callsAtMost) :
    callsInItems encode count items ≤ callsAtMostAll items := by
  induction items with
  | nil => exact Nat.le_refl 0
  | cons v rest ih =>
    have hv := h v
    rw [callsInItems, callsAtMostAll]
    split <;> omega

theorem callsInEntries_le {entries : List (Key × Node)} (taken : List String)
    (h : ∀ v, count v ≤ v.callsAtMost) :
    callsInEntries encode count taken entries ≤ callsAtMostEntries entries := by
  induction entries generalizing taken with
  | nil => exact Nat.le_refl 0
  | cons entry rest ih =>
    obtain ⟨key, v⟩ := entry
    have hv := h v
    rw [callsInEntries, callsAtMostEntries]
    split
    · exact Nat.zero_le _
    next name _ =>
      have hrest := ih (name :: taken)
      split
      · exact Nat.zero_le _
      · split <;> omega

theorem calls_of_not_native (hnative : n.isNative = false) (budget chain : Nat) :
    e.calls (budget + 1) chain n =
      if chainLimit ≤ chain then 1
      else match e.fallback n with
        | some substitute => e.calls budget (chain + 1) substitute + 1
        | none => 1 := by
  cases n <;> first | rfl | cases hnative

/-- **A value that is its own substitute** takes no more calls than the limit allows. -/
theorem calls_of_own_le (hnative : n.isNative = false) (hown : e.fallback n = some n)
    (budget chain : Nat) (hchain : chain ≤ chainLimit) :
    e.calls budget chain n ≤ chainLimit - chain + 1 := by
  induction budget generalizing chain with
  | zero => exact Nat.le_add_left ..
  | succ budget ih =>
    rw [calls_of_not_native hnative, hown]
    split
    · exact Nat.le_add_left ..
    · have hless := ih (chain + 1) (by omega)
      exact Nat.succ_le_succ (by omega)

theorem callsAtMost_described (n : Node) : (described n).callsAtMost = 3 := rfl

theorem callsAtMost_inSeconds (d : Duration) : (inSeconds d).callsAtMost = 3 := rfl

/-- What a record renders to takes fewer calls, or is the record. -/
theorem callsAtMost_rendered (tag : RecordTag) (rendering : Option Node) :
    (Node.rendered tag rendering).callsAtMost < (Node.record tag rendering).callsAtMost ∨
      Node.rendered tag rendering = .record tag rendering ∧
        chainLimit < (Node.record tag rendering).callsAtMost := by
  cases rendering with
  | some n => exact Or.inl (Nat.lt_succ_self _)
  | none => exact Or.inr ⟨rfl, Nat.lt_succ_self _⟩

/-- **A substitute of a stock encoder takes fewer calls**, or is the record itself. -/
theorem Stock.callsAtMost_lt (he : e.Stock) (hnative : n.isNative = false)
    (hsubstitute : e.fallback n = some substitute) :
    substitute.callsAtMost < n.callsAtMost ∨ substitute = n ∧ chainLimit < n.callsAtMost := by
  cases he.substitutes hnative hsubstitute with
  | record tag rendering => exact callsAtMost_rendered tag rendering
  | set items => exact Or.inl (Nat.lt_succ_self _)
  | timestamp _ | duration _ | bytes _ | foreign _ _ =>
    exact Or.inl (by simp [callsAtMost, callsAtMost_described, callsAtMost_inSeconds])

/-- **A stock encoder makes no more calls than the node allows**, within any budget. -/
theorem Stock.calls_le (he : e.Stock) (budget chain : Nat) (n : Node) :
    e.calls budget chain n ≤ n.callsAtMost := by
  induction budget generalizing chain n with
  | zero => exact n.callsAtMost_pos
  | succ budget ih =>
    cases hnative : n.isNative with
    | true =>
      cases n with
      | array items =>
        rw [calls, callsAtMost]
        exact Nat.succ_le_succ (callsInItems_le (ih 0))
      | object entries =>
        rw [calls, callsAtMost]
        exact Nat.succ_le_succ (callsInEntries_le [] (ih 0))
      | null | bool _ | int _ | uint _ | float _ | string _ => exact Nat.le_refl 1
      | _ => cases hnative
    | false =>
      have hpos := n.callsAtMost_pos
      rw [calls_of_not_native hnative]
      split
      · exact hpos
      · split
        next substitute hsubstitute =>
          rcases he.callsAtMost_lt hnative hsubstitute with hless | ⟨rfl, hmany⟩
          · exact Nat.lt_of_le_of_lt (ih _ _) hless
          · -- the record takes as many calls as substitutes are left
            have hown := calls_of_own_le hnative hsubstitute budget (chain + 1) (by omega)
            exact Nat.lt_of_le_of_lt hown (by omega)
        next => exact hpos

end Encoder

end DocStore
