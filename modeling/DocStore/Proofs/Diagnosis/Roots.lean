import DocStore.Proofs.Diagnosis.Paths
/-!
# Searches from another root

A search writes paths and never reads them, but to tell whether two are the same. So what
stands in front of all paths makes no difference to it: from another root it finds the
same values, in the same order, under paths that go on from that root in the same way
(`run_under`). A record in front of a node is such a root, unless a record follows
(`report_record`).
-/

namespace DocStore

namespace Report

/-- The findings under paths that go on from a root. -/
def under (root : String) (r : List (String × Node)) : List (String × Node) :=
  r.map fun (path, value) => (root ++ path, value)

theorem insert_under (root path : String) (value : Node) (r : Report) :
    Report.insert (root ++ path) value (under root r) = under root (r.insert path value) := by
  induction r with
  | nil => rfl
  | cons entry rest ih =>
    obtain ⟨p, v⟩ := entry
    have hcons : under root ((p, v) :: rest) = (root ++ p, v) :: under root rest := rfl
    rw [hcons, insert, insert]
    by_cases hp : p = path
    · rw [if_pos hp, if_pos (congrArg (root ++ ·) hp)]
      rfl
    · rw [if_neg hp, if_neg fun heq => hp ((String.append_right_inj root).1 heq), ih]
      rfl

theorem insertAll_under (root : String) (found : List (String × Node)) (r : Report) :
    insertAll (under root found) (under root r) = under root (insertAll found r) := by
  induction found generalizing r with
  | nil => rfl
  | cons entry rest ih =>
    obtain ⟨path, value⟩ := entry
    have hstep : insertAll (under root ((path, value) :: rest)) (under root r) =
        insertAll (under root rest) (Report.insert (root ++ path) value (under root r)) := rfl
    rw [hstep, insert_under, ih]
    rfl

end Report

namespace Diagnosis

variable {encodes : Node → Bool} {n : Node} {tag : RecordTag}

/-- The part under a path that goes on from a root. -/
def Part.under (root : String) (p : Part) : Part := { p with path := root ++ p.path }

/-- The search from a root: all its paths go on from there. -/
def Search.under (root : String) (s : Search) : Search :=
  ⟨s.waiting.map (Part.under root), Report.under root s.found⟩

/-! ## What a root changes -/

theorem itemParts_under (root path : String) (index : Nat) (items : List Node) :
    itemParts (root ++ path) index items = (itemParts path index items).map (Part.under root) := by
  induction items generalizing index with
  | nil => rfl
  | cons v rest ih =>
    rw [itemParts, itemParts, List.map_cons, ih, itemPath_eq, itemPath_eq, String.append_assoc]
    rfl

theorem entryParts_under (root path : String) (taken : List String)
    (entries : List (Key × Node)) :
    entryParts (root ++ path) taken entries =
      (Report.under root (entryParts path taken entries).1,
        (entryParts path taken entries).2.map (Part.under root)) := by
  rw [entryParts_eq, entryParts_eq, Report.under, List.map_map, List.map_map]
  simp [Function.comp_def, Part.under, keyPath_eq, valuePath_eq, String.append_assoc]

/-- **A part under another root adds the same**, under that root. -/
theorem look_under (root : String) (p : Part) :
    (p.under root).look encodes =
      (Report.under root (p.look encodes).1, (p.look encodes).2.map (Part.under root)) := by
  have hopen : (p.under root).open =
      (Report.under root p.open.1, p.open.2.map (Part.under root)) := by
    obtain ⟨node, path, replaced⟩ := p
    cases node with
    | array items => exact congrArg (Prod.mk []) (itemParts_under root path 0 items)
    | object entries => exact entryParts_under root path [] entries
    | record tag rendering =>
      simp only [Part.under, Part.open, recordPath_eq]
      split
      · rfl
      · rw [String.append_assoc]
        rfl
    | _ => rfl
  cases h : encodes p.node with
  | true => rw [look_of_encodes h, look_of_encodes (p := p.under root) h]; rfl
  | false => rw [look_of_fails h, look_of_fails (p := p.under root) h, hopen]

/-- **A search from another root finds the same**, under that root. -/
theorem run_under (root : String) (s : Search) (visits : Nat) :
    (s.under root).run encodes visits = (s.run encodes visits).under root := by
  induction visits generalizing s with
  | zero => rfl
  | succ visits ih =>
    have hvisit : (s.under root).visit encodes = (s.visit encodes).under root := by
      obtain ⟨_ | ⟨p, waiting⟩, found⟩ := s
      · rfl
      · simp only [Search.under, List.map_cons, visit_cons, look_under, Report.insertAll_under,
          List.map_append]
    rw [Search.run, Search.run, hvisit, ih]

/-! ## Two roots of a node -/

/-- **What keeps a node from encoding, as seen from the node itself**: no root stands in
front of the paths. -/
def findings (encodes : Node → Bool) (n : Node) : Report :=
  (Search.run encodes ⟨[⟨n, "", 0⟩], []⟩ (positions 0 n)).found

theorem report_eq_findings (encodes : Node → Bool) (n : Node) :
    report encodes n = Report.under "$" (findings encodes n) := by
  have hstart : Search.start n = Search.under "$" ⟨[⟨n, "", 0⟩], []⟩ := rfl
  rw [report, hstart, run_under]
  rfl

theorem findings_eq_nil (h : encodes n = true) : findings encodes n = [] := by
  have hnone : report encodes n = [] :=
    report_eq_nil_iff.2 fun q hq => look_eq_nil_of_encodes (p := .root n) h hq
  rw [report_eq_findings] at hnone
  exact List.map_eq_nil_iff.1 hnone

/-- Unless the node is a record, it makes no difference that a record was replaced in front
of it. -/
theorem findings_behind (hplain : ∀ tag rendering, n ≠ .record tag rendering) :
    (Search.run encodes ⟨[⟨n, "", 1⟩], []⟩ (positions 1 n)).found = findings encodes n := by
  have hpositions : positions 1 n = positions 0 n := by
    cases n with
    | record tag rendering => exact absurd rfl (hplain tag rendering)
    | _ => rfl
  have hlook : Part.look encodes ⟨n, "", 1⟩ = Part.look encodes ⟨n, "", 0⟩ := by
    cases n with
    | record tag rendering => exact absurd rfl (hplain tag rendering)
    | _ => rfl
  -- the count is gone with the first visit
  obtain ⟨visits, hvisits⟩ : ∃ visits, positions 0 n = visits + 1 :=
    Nat.exists_eq_succ_of_ne_zero (Nat.pos_iff_ne_zero.1 (weight_pos ⟨n, "", 0⟩))
  rw [findings, hpositions, hvisits, Search.run, Search.run, visit_cons, visit_cons, hlook]

/-- **A record around a node is another root for it**, unless the node is a record too. -/
theorem report_record (hplain : ∀ tag' rendering, n ≠ .record tag' rendering)
    (h : encodes (.record tag (some n)) = encodes n) :
    report encodes (.record tag (some n)) =
      Report.under (recordPath "$" tag) (findings encodes n) := by
  cases hn : encodes n with
  | true =>
    rw [report_eq_findings, findings_eq_nil (h.trans hn), findings_eq_nil hn]
    rfl
  | false =>
    have hpositions : positions 0 (.record tag (some n)) = positions 1 n + 1 := rfl
    have hopen : (Search.start (.record tag (some n))).visit encodes =
        Search.under (recordPath "$" tag) ⟨[⟨n, "", 1⟩], []⟩ := by
      rw [Search.start, visit_cons, look_of_fails (h.trans hn)]
      simp [Part.root, Part.open, Encoder.chainLimit, Node.rendered, Search.under, Part.under,
        Report.insertAll, Report.under]
    rw [report, hpositions, Search.run, hopen, run_under, Search.under, findings_behind hplain]

end Diagnosis

end DocStore
