import DocStore.Proofs.Diagnosis.Completeness
import DocStore.Proofs.Encoding.Sufficiency
/-!
# Where a failed encoding is located

Under an encoder that renders records, the search goes through a record to what
it renders to, and asks of each whether it encodes on its own. Encoding counts
the substitutes in a row from the first record on; the search has each record
counted anew. So the part at which a search without findings ends is a record
that takes one substitute more than the limit (`takes_of_last`): encoding refuses
it, and what it renders to encodes. Everything else that does not encode is
located.
-/

namespace DocStore

namespace Encoder

/-- **An encoder that renders records**: a record stands for what it renders to,
and any other substitute needs none in turn. -/
structure RendersRecords (e : Encoder) : Prop where
  record : ∀ tag rendering, e.fallback (.record tag rendering) = some (Node.rendered tag rendering)
  native : ∀ n substitute, (∀ tag rendering, n ≠ .record tag rendering) → n.isNative = false →
    e.fallback n = some substitute → substitute.isNative = true

theorem rendersRecords_standard : standard.RendersRecords where
  record _ _ := rfl
  native n substitute hplain hnative hsubstitute := by
    cases n with
    | record tag rendering => exact absurd rfl (hplain tag rendering)
    | set _ | timestamp _ => cases hsubstitute; rfl
    | duration _ | bytes _ | foreign _ _ => cases hsubstitute
    | _ => cases hnative

theorem rendersRecords_extended : extended.RendersRecords where
  record _ _ := rfl
  native n substitute hplain hnative hsubstitute := by
    cases n with
    | record tag rendering => exact absurd rfl (hplain tag rendering)
    | set _ | timestamp _ | duration _ | bytes _ | foreign _ _ => cases hsubstitute; rfl
    | _ => cases hnative

/-- **Only records take more than one substitute.** -/
theorem RendersRecords.exists_record {e : Encoder} (he : e.RendersRecords) {k : Nat} {n : Node}
    (h : e.Takes (k + 2) n) :
    ∃ tag rendering, n = .record tag rendering ∧ e.Takes (k + 1) (Node.rendered tag rendering) := by
  obtain ⟨hnative, substitute, hsubstitute, htakes⟩ := takes_succ.1 h
  by_cases hrecord : ∃ tag rendering, n = .record tag rendering
  · obtain ⟨tag, rendering, rfl⟩ := hrecord
    obtain rfl := Option.some.inj ((he.record tag rendering).symm.trans hsubstitute)
    exact ⟨tag, rendering, rfl, htakes⟩
  · have hlast := he.native n substitute (fun tag rendering hn => hrecord ⟨tag, rendering, hn⟩)
      hnative hsubstitute
    exact absurd (hlast.symm.trans (takes_succ.1 htakes).1) (by simp)

end Encoder

namespace Diagnosis

variable {encodes : Node → Bool} {e : Encoder} {budget : Nat} {p q u : Part} {v : Node}

/-! ## Parts of lists and objects -/

theorem exists_mem_itemParts {path : String} {index : Nat} {items : List Node} (hv : v ∈ items) :
    ∃ u ∈ itemParts path index items, u.node = v := by
  induction items generalizing index with
  | nil => cases hv
  | cons w rest ih =>
    rw [itemParts]
    rcases List.mem_cons.1 hv with rfl | hv
    · exact ⟨_, List.mem_cons_self .., rfl⟩
    · obtain ⟨u, hu, hnode⟩ := ih hv
      exact ⟨u, List.mem_cons_of_mem _ hu, hnode⟩

/-- **Where no key is bad, all keys have names** and every value is a part. -/
theorem hasNames_of_entryParts_eq_nil {path : String} {taken : List String}
    {entries : List (Key × Node)} (h : (entryParts path taken entries).1 = []) :
    Encoder.HasNames taken entries ∧
      ∀ entry ∈ entries, ∃ u ∈ (entryParts path taken entries).2, u.node = entry.2 := by
  induction entries generalizing taken with
  | nil => exact ⟨trivial, by simp⟩
  | cons entry rest ih =>
    obtain ⟨key, w⟩ := entry
    rcases good_or_bad taken key with ⟨name, hname, hfree⟩ | hbad
    · rw [entryParts_of_good hname hfree] at h ⊢
      obtain ⟨hnames, hparts⟩ := ih h
      refine ⟨⟨name, hname, hfree, hnames⟩, List.forall_mem_cons.2 ⟨?_, fun entry hentry => ?_⟩⟩
      · exact ⟨_, List.mem_cons_self .., rfl⟩
      · obtain ⟨u, hu, hnode⟩ := hparts entry hentry
        exact ⟨u, List.mem_cons_of_mem _ hu, hnode⟩
    · rw [entryParts_of_bad hbad] at h
      cases h

/-! ## Height of parts -/

/-- What is inside a part is no higher. -/
theorem height_le_of_mem_look (hu : u ∈ (p.look encodes).2) : u.node.height ≤ p.node.height := by
  rw [Part.look] at hu
  split at hu
  · cases hu
  · rcases open_cases p with ⟨items, hnode, hopen⟩ | ⟨entries, hnode, hopen⟩ |
      ⟨tag, rendering, hnode, -, hopen⟩ | hopen
    · rw [hopen] at hu
      have hle := Node.height_le_heightAll (node_mem_of_mem_itemParts hu)
      rw [hnode, Node.height]
      omega
    · rw [hopen] at hu
      obtain ⟨entry, hentry, hvalue⟩ := exists_mem_of_mem_entryParts hu
      have hle := Node.height_le_heightEntries hentry
      rw [← hvalue, hnode, Node.height]
      omega
    · rw [hopen] at hu
      obtain rfl := List.mem_singleton.1 hu
      rw [hnode]
      rcases Encoder.height_rendered tag rendering with hlt | ⟨heq, -⟩
      · exact Nat.le_of_lt hlt
      · exact Nat.le_of_eq (congrArg Node.height heq)
    · rw [hopen] at hu
      cases hu

theorem Reaches.height_le (h : Reaches encodes p q) : q.node.height ≤ p.node.height := by
  induction h with
  | self => exact Nat.le_refl _
  | inside _ hu ih => exact Nat.le_trans (height_le_of_mem_look hu) ih

/-! ## The last part without a finding -/

/-- **The last part that does not encode, if it has no finding, is a record that
takes one substitute too many.** Lists and objects encode if what is inside them
does, and anything else is a finding. -/
theorem takes_of_last (he : e.RendersRecords) (hsound : ∀ n, encodes n = true → e.Encodes n)
    (hfails : encodes q.node = false) (hq : ¬ e.Encodes q.node) (hlook : (q.look encodes).1 = [])
    (hinside : ∀ u ∈ (q.look encodes).2, encodes u.node = true) :
    q.replaced < Encoder.chainLimit ∧ e.Takes (Encoder.chainLimit + 1) q.node := by
  rw [look_of_fails hfails] at hlook hinside
  rcases open_cases q with ⟨items, hnode, hopen⟩ | ⟨entries, hnode, hopen⟩ |
    ⟨tag, rendering, hnode, hlimit, hopen⟩ | hopen
  · rw [hopen] at hinside
    rw [hnode] at hq
    refine absurd (Encoder.encodes_array_iff.2 fun w hw => ?_) hq
    obtain ⟨u, hu, hvalue⟩ := exists_mem_itemParts hw
    exact hvalue ▸ hsound u.node (hinside u hu)
  · rw [hopen] at hlook hinside
    rw [hnode] at hq
    obtain ⟨hnames, hparts⟩ := hasNames_of_entryParts_eq_nil hlook
    refine absurd (Encoder.encodes_object_iff.2 ⟨hnames, fun entry hentry => ?_⟩) hq
    obtain ⟨u, hu, hvalue⟩ := hparts entry hentry
    exact hvalue ▸ hsound u.node (hinside u hu)
  · rw [hopen] at hinside
    rw [hnode] at hq ⊢
    have hrendered := hsound _ (hinside _ (List.mem_singleton.2 rfl))
    exact ⟨hlimit, Encoder.takes_limit_of_substitute rfl (he.record tag rendering) hq hrendered⟩
  · rw [hopen] at hlook
    cases hlook

/-- **A row of records too long for encoding, but not for the search, has no
findings**: the search comes to a record that few enough substitutes follow. -/
theorem look_eq_nil_of_takes (he : e.RendersRecords)
    (hcomplete : ∀ q, Reaches encodes p q → e.Encodes q.node → encodes q.node = true) {k : Nat}
    (h : e.Takes k p.node) (hk : k + p.replaced ≤ 2 * Encoder.chainLimit)
    (hq : Reaches encodes p q) : (q.look encodes).1 = [] := by
  induction k generalizing p with
  | zero =>
    have hencodes := Encoder.encodes_iff_takes.2 ⟨0, Nat.zero_le _, h⟩
    exact look_eq_nil_of_encodes (hcomplete p .self hencodes) hq
  | succ k ih =>
    cases haccepted : encodes p.node with
    | true => exact look_eq_nil_of_encodes haccepted hq
    | false =>
      -- what is refused takes more than the limit, so it is a record
      have hlong : Encoder.chainLimit < k + 1 := by
        by_contra hshort
        have hencodes := Encoder.encodes_iff_takes.2 ⟨k + 1, Nat.not_lt.1 hshort, h⟩
        exact Bool.eq_false_iff.1 haccepted (hcomplete p .self hencodes)
      obtain ⟨l, rfl⟩ : ∃ l, k = l + 1 := ⟨k - 1, by simp [Encoder.chainLimit] at hlong; omega⟩
      obtain ⟨tag, rendering, hnode, hrendered⟩ := he.exists_record h
      have hlook : p.look encodes =
          ([], [⟨Node.rendered tag rendering, recordPath p.path tag, p.replaced + 1⟩]) := by
        rw [look_of_fails haccepted, Part.open, hnode]
        exact if_neg (by omega)
      rcases hq.cases_head with rfl | ⟨u, hu, hreach⟩
      · rw [hlook]
      · obtain rfl : u = _ := List.mem_singleton.1 (by rwa [hlook] at hu)
        exact ih (fun w hw => hcomplete w (hw.head hu)) hrendered (by dsimp only; omega) hreach

/-! ## Nodes behind records -/

/-- A node behind so many records, each rendering to the next. -/
def inRecords : Nat → Node → Node
  | 0, n => n
  | k + 1, n => .record ⟨"R", some k.repr, k⟩ (some (inRecords k n))

theorem takes_inRecords (he : e.RendersRecords) (hnative : v.isNative = true) (hv : e.Encodes v)
    (k : Nat) : e.Takes k (inRecords k v) := by
  induction k with
  | zero => exact Encoder.takes_zero.2 ⟨hnative, hv⟩
  | succ k ih => exact Encoder.takes_succ.2 ⟨rfl, _, he.record _ _, ih⟩

/-! ## The diagnosis -/

/-- Where an attempt returns, accepting a node means that it encodes. -/
theorem encodes_iff_accepts {n : Node} (h : (e.toJson budget n).isSome) :
    e.Encodes n ↔ e.accepts budget n = true := by
  obtain ⟨result, hresult⟩ := Option.isSome_iff_exists.1 h
  rw [Encoder.encodes_iff_of_toJson hresult, accepts_iff, hresult]
  simp

/-- **A failed encoding is located, unless a row of records is one too long.**
Under either encoder that renders records nothing runs out of budget, and the
report is empty if the node encodes. If it is empty though the node does not
encode, the search came to a record that takes one substitute more than the
limit. And whatever takes more than the limit, up to twice as many, is refused as
endless with nothing in the report. -/
theorem diagnose_locates (e : Encoder) (he : e = .standard ∨ e = .extended) (v : Node)
    (budget : Nat) (hbudget : v.height ≤ budget) :
    (∀ q, Reaches (e.accepts budget) (.root v) q → (e.toJson budget q.node).isSome) ∧
    ((∃ w, e.toJson budget v = some (.ok w)) → e.diagnose budget v = []) ∧
    (e.diagnose budget v = [] → (∃ w, e.toJson budget v = some (.ok w)) ∨
      ∃ q, Reaches (e.accepts budget) (.root v) q ∧ q.replaced < Encoder.chainLimit ∧
        e.Takes (Encoder.chainLimit + 1) q.node) ∧
    (∀ k, Encoder.chainLimit < k → k ≤ 2 * Encoder.chainLimit → e.Takes k v →
      e.diagnose budget v = [] ∧
        ∃ name, e.toJson budget v = some (.error (.endlessFallback name))) := by
  have hstock : e.Stock := by rcases he with rfl | rfl <;> constructor
  have hrenders : e.RendersRecords := by
    rcases he with rfl | rfl
    · exact Encoder.rendersRecords_standard
    · exact Encoder.rendersRecords_extended
  have hreturns : ∀ q, Reaches (e.accepts budget) (.root v) q →
      (e.toJson budget q.node).isSome :=
    fun q hq => hstock.isSome_toJson (Nat.le_trans hq.height_le hbudget)
  -- what the search passes over is what encodes
  have haccepts : ∀ q, Reaches (e.accepts budget) (.root v) q →
      (e.Encodes q.node ↔ e.accepts budget q.node = true) :=
    fun q hq => encodes_iff_accepts (hreturns q hq)
  refine ⟨hreturns, fun hok => ?_, fun hempty => ?_, fun k hk hk' htakes => ?_⟩
  · exact report_eq_nil_iff.2 fun q hq => look_eq_nil_of_encodes (accepts_iff.2 hok) hq
  · cases hself : e.accepts budget v with
    | true => exact Or.inl (accepts_iff.1 hself)
    | false =>
      obtain ⟨q, hq, hfails, hinside⟩ := exists_last (p := .root v) hself
      have hrefused : ¬ e.Encodes q.node := fun h =>
        Bool.eq_false_iff.1 hfails ((haccepts q hq).1 h)
      have hsound : ∀ n, e.accepts budget n = true → e.Encodes n := fun n hn =>
        ⟨budget, accepts_iff.1 hn⟩
      exact Or.inr ⟨q, hq,
        takes_of_last hrenders hsound hfails hrefused (report_eq_nil_iff.1 hempty q hq) hinside⟩
  · refine ⟨report_eq_nil_iff.2 fun q hq => ?_, ?_⟩
    · exact look_eq_nil_of_takes hrenders (fun u hu => (haccepts u hu).1) htakes hk' hq
    · obtain ⟨result, hresult⟩ := Option.isSome_iff_exists.1 (hreturns _ .self)
      obtain ⟨name, hname⟩ := htakes.endless hk (Nat.lt_succ_self _)
      exact ⟨name, Encoder.toJson_unique hresult hname ▸ hresult⟩

/-- Forty records around null, under the encoder that has a substitute for
everything. -/
theorem diagnose_locates_inRecords :
    (inRecords 40 .null).height ≤ 41 ∧ Encoder.extended.diagnose 41 (inRecords 40 .null) = [] := by
  have hheight : (inRecords 40 .null).height ≤ 41 := by decide
  have hlocates := diagnose_locates Encoder.extended (Or.inr rfl) (inRecords 40 .null) 41 hheight
  have htakes : Encoder.extended.Takes 40 (inRecords 40 .null) :=
    takes_inRecords Encoder.rendersRecords_extended rfl ⟨1, .null, rfl⟩ 40
  exact ⟨hheight, (hlocates.2.2.2 40 (by decide) (by decide) htakes).1⟩

/-- Thirty-three records around null are refused, with nothing in the report. -/
theorem refused_but_not_located :
    Encoder.standard.toJson 34 (inRecords 33 .null) = some (.error (.endlessFallback "R")) ∧
      Encoder.standard.diagnose 34 (inRecords 33 .null) = [] := ⟨rfl, rfl⟩

end Diagnosis

end DocStore
