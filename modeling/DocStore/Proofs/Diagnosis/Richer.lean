import DocStore.Proofs.Diagnosis.Located
import DocStore.Proofs.Encoding.Distinct
/-!
# Richer encoders

An encoder that has all the substitutes of another and some more gives every value
that the other gives. A search therefore passes over more under the richer encoder,
and what it still opens has the same parts and findings under both. So it comes to
no position that the search under the poorer encoder does not come to.
-/

namespace DocStore

namespace Encoder

variable {e₁ e₂ : Encoder} {f g : Node → Attempt Json}

/-- **One encoder is as rich as another**: wherever the other has a substitute, it has
the same one. -/
def Richer (e₂ e₁ : Encoder) : Prop :=
  ∀ n substitute, n.isNative = false → e₁.fallback n = some substitute →
    e₂.fallback n = some substitute

/-- **Two encoders agree** on all nodes that an encoder is asked about. -/
def Agrees (e₂ e₁ : Encoder) : Prop := ∀ n, n.isNative = false → e₂.fallback n = e₁.fallback n

/-- Plain JSON has no substitutes at all. -/
theorem richer_strict (e : Encoder) : e.Richer strict := by
  intro n substitute _ hsubstitute
  cases hsubstitute

theorem extended_richer_standard : extended.Richer standard := by
  intro n substitute hnative hsubstitute
  cases n with
  | set _ | timestamp _ | record _ _ => exact hsubstitute
  | duration _ | bytes _ | foreign _ _ => cases hsubstitute
  | _ => cases hnative

/-! ## Encoding -/

/-- **One way of encoding gives all values that the other gives.** -/
def Improves (g f : Node → Attempt Json) : Prop :=
  ∀ n w, (f n).run = some (.ok w) → (g n).run = some (.ok w)

theorem encodeItems_improves (h : Improves g f) {items : List Node} {ws : List Json}
    (hrun : (encodeItems f items).run = some (.ok ws)) :
    (encodeItems g items).run = some (.ok ws) := by
  induction items generalizing ws with
  | nil => exact hrun
  | cons v rest ih =>
    rw [encodeItems] at hrun ⊢
    obtain ⟨first, hfirst, hrun⟩ := run_bind_eq_ok.1 hrun
    obtain ⟨others, hothers, hrun⟩ := run_bind_eq_ok.1 hrun
    have hrest : (encodeItems g rest).run = some (.ok others) := ih hothers
    exact run_bind_eq_ok.2 ⟨first, h v first hfirst, run_bind_eq_ok.2 ⟨others, hrest, hrun⟩⟩

theorem encodeEntries_improves (h : Improves g f) {taken : List String}
    {entries : List (Key × Node)} {members : List (String × Json)}
    (hrun : (encodeEntries f taken entries).run = some (.ok members)) :
    (encodeEntries g taken entries).run = some (.ok members) := by
  induction entries generalizing taken members with
  | nil => exact hrun
  | cons entry rest ih =>
    obtain ⟨key, v⟩ := entry
    rw [encodeEntries] at hrun ⊢
    split at hrun
    next => cases hrun
    next name hname =>
      split at hrun
      next => cases hrun
      next hfree =>
        rw [if_neg hfree]
        obtain ⟨first, hfirst, hrun⟩ := run_bind_eq_ok.1 hrun
        obtain ⟨others, hothers, hrun⟩ := run_bind_eq_ok.1 hrun
        have hrest : (encodeEntries g (name :: taken) rest).run = some (.ok others) := ih hothers
        exact run_bind_eq_ok.2 ⟨first, h v first hfirst, run_bind_eq_ok.2 ⟨others, hrest, hrun⟩⟩

/-- **A richer encoder gives the same value**, within the same budget and behind as
many substitutes. -/
theorem Richer.encode_improves (h : e₂.Richer e₁) (budget chain : Nat) :
    Improves (e₂.encode budget chain) (e₁.encode budget chain) := by
  induction budget generalizing chain with
  | zero =>
    intro n w hrun
    cases hrun
  | succ budget ih =>
    intro n w hrun
    cases hnative : n.isNative with
    | true =>
      cases n with
      | array items =>
        rw [encode] at hrun ⊢
        obtain ⟨ws, hws, hrun⟩ := run_bind_eq_ok.1 hrun
        exact run_bind_eq_ok.2 ⟨ws, encodeItems_improves (ih 0) hws, hrun⟩
      | object entries =>
        rw [encode] at hrun ⊢
        obtain ⟨members, hmembers, hrun⟩ := run_bind_eq_ok.1 hrun
        exact run_bind_eq_ok.2 ⟨members, encodeEntries_improves (ih 0) hmembers, hrun⟩
      | null | bool _ | int _ | uint _ | float _ | string _ => exact hrun
      | _ => cases hnative
    | false =>
      rw [encode_of_not_native hnative] at hrun ⊢
      split at hrun
      next => cases hrun
      next hchain =>
        rw [if_neg hchain]
        split at hrun
        next substitute hsubstitute =>
          -- the substitute is any node, so the induction is on the budget
          rw [h n substitute hnative hsubstitute]
          exact ih (chain + 1) substitute w hrun
        next => cases hrun

theorem Richer.toJson (h : e₂.Richer e₁) {budget : Nat} {v : Node} {w : Json}
    (hrun : e₁.toJson budget v = some (.ok w)) : e₂.toJson budget v = some (.ok w) :=
  h.encode_improves budget 0 v w hrun

/-- **Encoders that agree give the same attempts**, faults included. -/
theorem Agrees.encode_eq (h : e₂.Agrees e₁) (budget chain : Nat) (n : Node) :
    e₂.encode budget chain n = e₁.encode budget chain n := by
  induction budget generalizing chain n with
  | zero => rfl
  | succ budget ih =>
    have hinside : e₂.encode budget 0 = e₁.encode budget 0 := funext fun m => ih 0 m
    cases hnative : n.isNative with
    | true =>
      cases n with
      | array _ | object _ => rw [encode, encode, hinside]
      | null | bool _ | int _ | uint _ | float _ | string _ => rfl
      | _ => cases hnative
    | false =>
      rw [encode_of_not_native hnative, encode_of_not_native hnative, h n hnative]
      split
      · rfl
      · split
        next substitute _ => exact ih (chain + 1) substitute
        next => rfl

end Encoder

namespace Diagnosis

open Encoder

variable {accepts₁ accepts₂ : Node → Bool} {p q : Part} {e₁ e₂ : Encoder}

/-! ## Searching -/

/-- A search that passes over more sees nothing in a part, or the same. -/
theorem look_of_more (h : ∀ n, accepts₁ n = true → accepts₂ n = true) (p : Part) :
    p.look accepts₂ = ([], []) ∨ p.look accepts₂ = p.look accepts₁ := by
  cases hencodes : accepts₂ p.node with
  | true => exact Or.inl (look_of_encodes hencodes)
  | false =>
    have hfails : accepts₁ p.node = false := by
      rw [← Bool.not_eq_true]
      intro haccepted
      rw [h p.node haccepted] at hencodes
      cases hencodes
    exact Or.inr ((look_of_fails hencodes).trans (look_of_fails hfails).symm)

/-- **A search that passes over more comes to fewer parts.** -/
theorem Reaches.of_more (h : ∀ n, accepts₁ n = true → accepts₂ n = true)
    (hq : Reaches accepts₂ p q) : Reaches accepts₁ p q := by
  induction hq with
  | self => exact .self
  | @inside q u _ hu ih =>
    rcases look_of_more h q with hnothing | hsame
    · rw [hnothing] at hu
      cases hu
    · rw [hsame] at hu
      exact ih.inside hu

/-- **A search that passes over more has fewer paths in its report.** -/
theorem has_report_of_more (h : ∀ n, accepts₁ n = true → accepts₂ n = true) {v : Node}
    {path : String} (hpath : (report accepts₂ v).Has path) : (report accepts₁ v).Has path := by
  obtain ⟨q, hq, value, hvalue⟩ := has_report_iff.1 hpath
  have hreaches : Reaches accepts₁ (.root v) q := hq.of_more h
  rcases look_of_more h q with hnothing | hsame
  · rw [hnothing] at hvalue
    cases hvalue
  · rw [hsame] at hvalue
    exact has_report_iff.2 ⟨q, hreaches, value, hvalue⟩

/-! ## Conservative extension -/

/-- **A richer encoder extends a poorer one conservatively.** Whatever the poorer one
encodes, the richer one encodes to the same value, and all paths in its report are in
that of the poorer one. Every encoder is as rich as plain JSON, and the extended one
as the standard one; and encoders that agree give the same results and the same
reports. -/
theorem toJson_diagnose_richer :
    (∀ e₁ e₂ : Encoder, e₂.Richer e₁ → ∀ budget v,
      (∀ w, e₁.toJson budget v = some (.ok w) → e₂.toJson budget v = some (.ok w)) ∧
      ∀ path, (e₂.diagnose budget v).Has path → (e₁.diagnose budget v).Has path) ∧
    (∀ e : Encoder, e.Richer strict) ∧ extended.Richer standard ∧
    ∀ e₁ e₂ : Encoder, e₂.Agrees e₁ → ∀ budget v,
      e₂.toJson budget v = e₁.toJson budget v ∧ e₂.diagnose budget v = e₁.diagnose budget v := by
  refine ⟨fun e₁ e₂ h budget v => ⟨fun w => h.toJson, fun path => ?_⟩, richer_strict,
    extended_richer_standard, fun e₁ e₂ h budget v => ?_⟩
  · refine has_report_of_more fun n haccepted => ?_
    obtain ⟨w, hw⟩ := accepts_iff.1 haccepted
    exact accepts_iff.2 ⟨w, h.toJson hw⟩
  · have hsame : ∀ n, e₂.toJson budget n = e₁.toJson budget n := by
      intro n
      rw [toJson, toJson, h.encode_eq]
    have haccepts : e₂.accepts budget = e₁.accepts budget := by
      funext n
      rw [accepts, accepts, hsame]
    refine ⟨hsame v, ?_⟩
    rw [diagnose, diagnose, haccepts]

/-- A set beside bytes: only the bytes are left over under the standard encoder. -/
def setBesideBytes : Node := .array [.set [], .bytes []]

theorem toJson_diagnose_richer_setBesideBytes :
    standard.diagnose 3 setBesideBytes = [("$[1]", .bytes [])] ∧
      (strict.diagnose 3 setBesideBytes).Has "$[1]" ∧
      extended.toJson 3 (.set []) = some (.ok (.array [])) := by
  obtain ⟨hricher, hstrict, hextended, -⟩ := toJson_diagnose_richer
  have hreport : standard.diagnose 3 setBesideBytes = [("$[1]", .bytes [])] := rfl
  have hpath : (standard.diagnose 3 setBesideBytes).Has "$[1]" := by
    rw [hreport]
    exact ⟨.bytes [], List.mem_singleton.2 rfl⟩
  have hset : standard.toJson 3 (.set []) = some (.ok (.array [])) := rfl
  exact ⟨hreport, (hricher strict standard (hstrict standard) 3 setBesideBytes).2 "$[1]" hpath,
    (hricher standard extended hextended 3 (.set [])).1 (.array []) hset⟩

end Diagnosis

end DocStore
