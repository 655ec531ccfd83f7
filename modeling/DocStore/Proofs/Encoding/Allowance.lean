import DocStore.Proofs.Encoding.Substitutes
/-!
# The counter is an allowance

Encoding counts the substitutes that lead to a value, and the count does one thing: it
uses up the limit. From a greater count a value encodes as from a smaller one, within
the same budget and to the same result, unless the row of its substitutes is still going
on where the greater count meets the limit (`encode_of_count_le`). So a value that encodes
behind a row of substitutes encodes on its own as well.

Substitutes are no parts of what they stand for. The induction is therefore on the
budget, with both counters going up by one at each substitute.
-/

namespace DocStore

namespace Encoder

variable {e : Encoder} {n m substitute : Node} {budget c d : Nat}

/-- **The row of substitutes outlasts a count**: with what the count leaves of the limit
it comes to this value, which is not native. -/
def Outlasts (e : Encoder) (count : Nat) (n m : Node) : Prop :=
  e.behind (chainLimit - count) n = some m ∧ m.isNative = false

/-- At the limit the row outlasts the count unless it is at its end. -/
theorem outlasts_of_limit_le (hlimit : chainLimit ≤ d) (hnative : n.isNative = false) :
    e.Outlasts d n n := by
  have hnothing : chainLimit - d = 0 := by omega
  refine ⟨?_, hnative⟩
  rw [hnothing]
  rfl

/-- Below the limit the row goes by its substitute, and so does the count. -/
theorem Outlasts.of_substitute (h : e.Outlasts (d + 1) substitute m)
    (hnative : n.isNative = false) (hsubstitute : e.fallback n = some substitute)
    (hlimit : d < chainLimit) : e.Outlasts d n m := by
  have hone : chainLimit - d = chainLimit - (d + 1) + 1 := by omega
  refine ⟨?_, h.2⟩
  rw [hone]
  exact behind_succ.2 ⟨hnative, substitute, hsubstitute, h.1⟩

/-- **A row that outlasts the count is a fault**, named after the value it has come to. -/
theorem Outlasts.encode_eq (h : e.Outlasts d n m) (budget : Nat) :
    e.encode (budget + 1 + (chainLimit - d)) d n = throw (.endlessFallback m.typeName) := by
  obtain ⟨hbehind, hnative⟩ := h
  rcases Nat.le_total d chainLimit with hle | hge
  · exact encode_at_limit hbehind hnative (by omega) budget
  · -- the count is past the limit, so the row is not followed at all
    have hnothing : chainLimit - d = 0 := by omega
    rw [hnothing] at hbehind ⊢
    obtain rfl := Option.some.inj hbehind
    rw [Nat.add_zero, encode_of_not_native hnative, if_pos hge]

/-- **From a greater count a value encodes as from a smaller one**, within every budget,
or its row outlasts the greater count. -/
theorem encode_eq_or_outlasts (h : c ≤ d) (budget : Nat) (n : Node) :
    e.encode budget d n = e.encode budget c n ∨
      ∃ m, e.Outlasts d n m ∧ e.encode budget d n = throw (.endlessFallback m.typeName) := by
  induction budget generalizing c d n with
  | zero => exact Or.inl rfl
  | succ budget ih =>
    cases hnative : n.isNative with
    | true => exact Or.inl (encode_of_native hnative ..)
    | false =>
      rcases Nat.lt_or_ge d chainLimit with hlt | hge
      · cases hsubstitute : e.fallback n with
        | none =>
          left
          rw [encode_of_not_native hnative, encode_of_not_native hnative, if_neg (by omega),
            if_neg (by omega), hsubstitute]
        | some substitute =>
          rw [encode_of_substitute hnative hsubstitute hlt,
            encode_of_substitute hnative hsubstitute (by omega)]
          rcases ih (Nat.succ_le_succ h) substitute with heq | ⟨m, hm, hfault⟩
          · exact Or.inl heq
          · exact Or.inr ⟨m, hm.of_substitute hnative hsubstitute hlt, hfault⟩
      · right
        refine ⟨n, outlasts_of_limit_le hge hnative, ?_⟩
        rw [encode_of_not_native hnative, if_pos hge]

/-- **The count of substitutes is an allowance and nothing else.** From a greater count a
value encodes as from a smaller one, to the same value or the same fault and within the
same budget, or it fails as an endless row; and that only where the row of its substitutes
outlasts the greater count, which is always such a fault. Results agree in the same way
across budgets. In particular what encodes from the greater count encodes to the same
value from the smaller one. -/
theorem encode_of_count_le (e : Encoder) (n : Node) {c d : Nat} (h : c ≤ d) :
    (∀ budget, e.encode budget d n = e.encode budget c n ∨
      ∃ m, e.Outlasts d n m ∧ e.encode budget d n = throw (.endlessFallback m.typeName)) ∧
    (∀ m, e.Outlasts d n m → ∀ budget,
      e.encode (budget + 1 + (chainLimit - d)) d n = throw (.endlessFallback m.typeName)) ∧
    (∀ budget budget' result result', (e.encode budget c n).run = some result →
      (e.encode budget' d n).run = some result' →
      result' = result ∨ ∃ m, e.Outlasts d n m ∧ result' = .error (.endlessFallback m.typeName)) ∧
    ∀ budget x, (e.encode budget d n).run = some (.ok x) →
      (e.encode budget c n).run = some (.ok x) := by
  refine ⟨fun budget => encode_eq_or_outlasts h budget n, fun m hm => hm.encode_eq, ?_, ?_⟩
  · intro budget budget' result result' hresult hresult'
    -- the greater of the two budgets gives both results
    have hlow := encode_extends (Nat.le_max_left budget budget') c n result hresult
    have hhigh := encode_extends (Nat.le_max_right budget budget') d n result' hresult'
    rcases encode_eq_or_outlasts h (max budget budget') n with heq | ⟨m, hm, hfault⟩
    · left
      rw [heq, hlow] at hhigh
      exact (Option.some.inj hhigh).symm
    · right
      rw [hfault] at hhigh
      exact ⟨m, hm, (Option.some.inj hhigh).symm⟩
  · intro budget x hx
    rcases encode_eq_or_outlasts h budget n with heq | ⟨m, -, hfault⟩
    · rwa [heq] at hx
    · rw [hfault] at hx
      cases hx

/-- A countdown of 21 substitutes has room behind 11 others, and so it has behind 5; behind
12 it is one too long. -/
theorem encode_of_count_le_countdown :
    5 ≤ 11 ∧ (countdown.encode 22 5 (.foreign "job" "20")).run = some (.ok (.string "done")) ∧
      5 ≤ 12 ∧ (countdown.encode 22 12 (.foreign "job" "20")).run =
        some (.error (.endlessFallback "job")) := by
  have hshort : 5 ≤ 11 := by decide
  have hlong : 5 ≤ 12 := by decide
  obtain ⟨-, -, -, hvalue⟩ := encode_of_count_le countdown (.foreign "job" "20") hshort
  obtain ⟨-, hfault, -, -⟩ := encode_of_count_le countdown (.foreign "job" "20") hlong
  have houtlasts : countdown.Outlasts 12 (.foreign "job" "20") (.foreign "job" "0") := ⟨rfl, rfl⟩
  refine ⟨hshort, hvalue 22 (.string "done") rfl, hlong, ?_⟩
  exact congrArg ExceptT.run (hfault _ houtlasts 1)

end Encoder

end DocStore
