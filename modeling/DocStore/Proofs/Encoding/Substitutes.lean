import DocStore.Proofs.Encoding.Budget
/-!
# Substitutes in a row

A value without a JSON form of its own stands for its substitute, and that for
the next one, until a value comes that needs none. A node encodes exactly if no
more than `chainLimit` substitutes follow it and the last one encodes
(`encodes_iff_takes`). A longer row is a fault, though the later part of it
encodes on its own.
-/

namespace DocStore

/-- **Values with a JSON form of their own**; an encoder is asked about all
others. -/
def Node.isNative : Node → Bool
  | .null | .bool _ | .int _ | .uint _ | .float _ | .string _ | .array _ | .object _ => true
  | _ => false

namespace Encoder

variable {e : Encoder} {n m substitute : Node} {budget chain j k : Nat}

/-- For a native value it does not matter what it is the substitute of. -/
theorem encode_of_native (hnative : n.isNative = true) (budget chain chain' : Nat) :
    e.encode budget chain n = e.encode budget chain' n := by
  cases budget with
  | zero => rfl
  | succ budget => cases n <;> first | rfl | cases hnative

/-- **A value that is not native goes by its substitute**, if it has one and the
limit is not reached. -/
theorem encode_of_not_native (hnative : n.isNative = false) (budget chain : Nat) :
    e.encode (budget + 1) chain n =
      if chainLimit ≤ chain then throw (.endlessFallback n.typeName)
      else match e.fallback n with
        | some substitute => e.encode budget (chain + 1) substitute
        | none => throw (.unsupported n.typeName) := by
  cases n <;> first | rfl | cases hnative

theorem encode_of_substitute (hnative : n.isNative = false)
    (hsubstitute : e.fallback n = some substitute) (hchain : chain < chainLimit) (budget : Nat) :
    e.encode (budget + 1) chain n = e.encode budget (chain + 1) substitute := by
  rw [encode_of_not_native hnative, if_neg (Nat.not_le.2 hchain), hsubstitute]

/-- **What stands so many substitutes behind a value.** -/
def behind (e : Encoder) : Nat → Node → Option Node
  | 0, n => some n
  | k + 1, n => if n.isNative then none else (e.fallback n).bind (e.behind k)

theorem behind_succ :
    e.behind (k + 1) n = some m ↔
      n.isNative = false ∧ ∃ substitute, e.fallback n = some substitute ∧
        e.behind k substitute = some m := by
  rw [behind]
  split
  next hnative => simp [hnative]
  next hnative => simp [hnative, Option.bind_eq_some_iff]

/-- **Encoding a value is encoding what stands behind it**, as long as the limit
allows. -/
theorem encode_of_behind (h : e.behind k n = some m) (hlimit : chain + k ≤ chainLimit)
    (budget : Nat) : e.encode (budget + k) chain n = e.encode budget (chain + k) m := by
  induction k generalizing n chain with
  | zero =>
    obtain rfl := Option.some.inj h
    rfl
  | succ k ih =>
    obtain ⟨hnative, substitute, hsubstitute, hbehind⟩ := behind_succ.1 h
    rw [← Nat.add_assoc, encode_of_substitute hnative hsubstitute (by omega),
      ih hbehind (by omega), Nat.add_right_comm, Nat.add_assoc]

/-- At the limit only a native value encodes. -/
theorem encode_at_limit (h : e.behind k n = some m) (hnative : m.isNative = false)
    (hlimit : chain + k = chainLimit) (budget : Nat) :
    e.encode (budget + 1 + k) chain n = throw (.endlessFallback m.typeName) := by
  rw [encode_of_behind h (by omega), encode_of_not_native hnative, if_pos (by omega)]

/-! ## How many substitutes a value takes -/

/-- **A node takes so many substitutes**: the last of them is native and
encodes. -/
def Takes (e : Encoder) (k : Nat) (n : Node) : Prop :=
  ∃ m, e.behind k n = some m ∧ m.isNative = true ∧ e.Encodes m

theorem takes_zero : e.Takes 0 n ↔ n.isNative = true ∧ e.Encodes n := by
  simp [Takes, behind]

theorem takes_succ :
    e.Takes (k + 1) n ↔
      n.isNative = false ∧ ∃ substitute, e.fallback n = some substitute ∧
        e.Takes k substitute := by
  constructor
  · rintro ⟨m, hbehind, hm⟩
    obtain ⟨hnative, substitute, hsubstitute, hbehind⟩ := behind_succ.1 hbehind
    exact ⟨hnative, substitute, hsubstitute, m, hbehind, hm⟩
  · rintro ⟨hnative, substitute, hsubstitute, m, hbehind, hm⟩
    exact ⟨m, behind_succ.2 ⟨hnative, substitute, hsubstitute, hbehind⟩, hm⟩

/-- What stands behind a value takes that many substitutes fewer. -/
theorem Takes.exists_behind (h : e.Takes (j + k) n) :
    ∃ m, e.behind j n = some m ∧ e.Takes k m := by
  induction j generalizing n with
  | zero => exact ⟨n, rfl, by rwa [Nat.zero_add] at h⟩
  | succ j ih =>
    rw [Nat.add_right_comm] at h
    obtain ⟨hnative, substitute, hsubstitute, h⟩ := takes_succ.1 h
    obtain ⟨m, hbehind, hm⟩ := ih h
    exact ⟨m, behind_succ.2 ⟨hnative, substitute, hsubstitute, hbehind⟩, hm⟩

theorem takes_of_encode {w : Json} (h : (e.encode budget chain n).run = some (.ok w))
    (hlimit : chain ≤ chainLimit) : ∃ k, chain + k ≤ chainLimit ∧ e.Takes k n := by
  induction budget generalizing chain n with
  | zero => cases h
  | succ budget ih =>
    cases hnative : n.isNative with
    | true =>
      rw [encode_of_native hnative _ _ 0] at h
      exact ⟨0, hlimit, takes_zero.2 ⟨hnative, budget + 1, w, h⟩⟩
    | false =>
      rw [encode_of_not_native hnative] at h
      split at h
      · cases h
      · split at h
        next substitute hsubstitute =>
          obtain ⟨k, hk, htakes⟩ := ih h (by omega)
          exact ⟨k + 1, by omega, takes_succ.2 ⟨hnative, substitute, hsubstitute, htakes⟩⟩
        next => cases h

/-- **A node encodes if it takes no more substitutes than the limit.** -/
theorem encodes_iff_takes : e.Encodes n ↔ ∃ k ≤ chainLimit, e.Takes k n := by
  constructor
  · rintro ⟨budget, w, h⟩
    obtain ⟨k, hk, htakes⟩ := takes_of_encode h (Nat.zero_le _)
    exact ⟨k, by omega, htakes⟩
  · rintro ⟨k, hk, m, hbehind, hnative, budget, w, h⟩
    refine ⟨budget + k, w, ?_⟩
    rw [toJson, encode_of_behind hbehind (by omega), encode_of_native hnative _ _ 0]
    exact h

/-- **A node that takes more substitutes than the limit is a fault of its
own.** -/
theorem Takes.endless (h : e.Takes k n) (hk : chainLimit < k) (hbudget : chainLimit < budget) :
    ∃ name, e.toJson budget n = some (.error (.endlessFallback name)) := by
  obtain ⟨l, rfl⟩ : ∃ l, k = chainLimit + (l + 1) := ⟨k - chainLimit - 1, by omega⟩
  obtain ⟨b, rfl⟩ : ∃ b, budget = b + 1 + chainLimit := ⟨budget - chainLimit - 1, by omega⟩
  obtain ⟨m, hbehind, hm⟩ := h.exists_behind
  refine ⟨m.typeName, ?_⟩
  rw [toJson, encode_at_limit hbehind (takes_succ.1 hm).1 (by omega)]
  rfl

/-- If a value does not encode though its substitute does, the substitute takes
as many as the limit allows. -/
theorem takes_limit_of_substitute (hnative : n.isNative = false)
    (hsubstitute : e.fallback n = some substitute) (h : ¬ e.Encodes n)
    (h' : e.Encodes substitute) : e.Takes (chainLimit + 1) n := by
  obtain ⟨k, hk, htakes⟩ := encodes_iff_takes.1 h'
  have hnext : e.Takes (k + 1) n := takes_succ.2 ⟨hnative, substitute, hsubstitute, htakes⟩
  have hfull : k = chainLimit := by
    by_contra hne
    exact h (encodes_iff_takes.2 ⟨k + 1, by omega, hnext⟩)
  rwa [hfull] at hnext

/-! ## Values that are their own substitutes -/

theorem behind_of_own (hnative : n.isNative = false) (hown : e.fallback n = some n) (k : Nat) :
    e.behind k n = some n := by
  induction k with
  | zero => rfl
  | succ k ih => exact behind_succ.2 ⟨hnative, n, hown, ih⟩

/-- **A value that is its own substitute fails at the limit.** -/
theorem encode_of_own (hnative : n.isNative = false) (hown : e.fallback n = some n)
    (hchain : chain ≤ chainLimit) (hbudget : chainLimit < chain + budget) :
    e.encode budget chain n = throw (.endlessFallback n.typeName) := by
  obtain ⟨k, hk⟩ : ∃ k, chain + k = chainLimit := ⟨chainLimit - chain, by omega⟩
  obtain ⟨b, rfl⟩ : ∃ b, budget = b + 1 + k := ⟨budget - k - 1, by omega⟩
  exact encode_at_limit (behind_of_own hnative hown k) hnative hk b

end Encoder

end DocStore
