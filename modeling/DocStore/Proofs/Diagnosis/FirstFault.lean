import DocStore.Proofs.Diagnosis.LevelOrder
import DocStore.Proofs.Encoding.FirstFault
/-!
# The fault that encoding stops at

Encoding goes in depth and stops at the first fault; the search goes level by level
and stops at none. Where no record is in the way, both go by the same faults
(`defectsIn`): the first of them in the order of the document is what encoding
complains of, and its path is in the report (`error_first_defect`).
-/

namespace DocStore

namespace Diagnosis

/-! ## The faults of a document -/

/-- **A fault of a document**: a value without parts that fails at a path, or a bad key
of the object at a path. -/
inductive Defect where
  | leaf (path : String) (node : Node)
  | badKey (path : String) (key : Key)

/-- The path under which a report has a fault. -/
def Defect.path : Defect → String
  | .leaf path _ => path
  | .badKey path key => keyPath path key

/-- **A fault explains an error**: the value fails with it on its own, or it names the
bad key as the path of the key does. -/
def Defect.Explains (e : Encoder) (fault : EncodeError) : Defect → Prop
  | .leaf _ w => e.FailsWith w fault
  | .badKey path key => ∃ name, fault = .invalidKey name ∧
      keyPath path key = path ++ "<key: " ++ name ++ ">"

open Classical in
mutual

/-- **The faults in a node**, in the order of the document: elements and entries from
the front, each with all that is in it, and a key before its value. -/
noncomputable def defectsIn (fails : Node → Prop) (path : String) : Node → List Defect
  | .array items => defectsInItems fails path 0 items
  | .object entries => defectsInEntries fails path [] entries
  | n => if fails n then [.leaf path n] else []

/-- The faults in elements, from the given index on. -/
noncomputable def defectsInItems (fails : Node → Prop) (path : String) (index : Nat) :
    List Node → List Defect
  | [] => []
  | v :: rest =>
    defectsIn fails (itemPath path index) v ++ defectsInItems fails path (index + 1) rest

/-- The faults in entries behind those in front. -/
noncomputable def defectsInEntries (fails : Node → Prop) (path : String)
    (front : List (Key × Node)) : List (Key × Node) → List Defect
  | [] => []
  | (key, v) :: rest =>
    (if NewName front key then [] else [.badKey path key]) ++
      (defectsIn fails (valuePath path key) v ++
        defectsInEntries fails path (front ++ [(key, v)]) rest)

end

variable {encodes : Node → Bool} {e : Encoder} {budget : Nat} {fault : EncodeError} {path : String}
  {v : Node}

/-! ## What a search shows -/

/-- **A search shows a path** in what it sees of a part, or in a part inside. -/
def Shows (encodes : Node → Bool) (seen : List (String × Node) × List Part) (path : String) :
    Prop :=
  Report.Has seen.1 path ∨
    ∃ u ∈ seen.2, ∃ q, Reaches encodes u q ∧ Report.Has (q.look encodes).1 path

theorem Shows.mono {seen seen' : List (String × Node) × List Part} (h : Shows encodes seen path)
    (hfindings : ∀ finding ∈ seen.1, finding ∈ seen'.1) (hparts : ∀ u ∈ seen.2, u ∈ seen'.2) :
    Shows encodes seen' path := by
  rcases h with ⟨value, h⟩ | ⟨u, hu, h⟩
  · exact Or.inl ⟨value, hfindings _ h⟩
  · exact Or.inr ⟨u, hparts u hu, h⟩

/-- A path that is shown in a part is in the report of what leads to the part. -/
theorem exists_reaches_of_shows {p : Part}
    (h : Shows encodes (p.look encodes) path) :
    ∃ q, Reaches encodes p q ∧ Report.Has (q.look encodes).1 path := by
  rcases h with h | ⟨u, hu, q, hq, h⟩
  · exact ⟨p, .self, h⟩
  · exact ⟨q, .head hu hq, h⟩

/-! ## The first fault -/

theorem takenBehind_newName {front : List (Key × Node)} {key : Key} :
    NewName front key ↔ ∃ name, key.name = .ok name ∧ name ∉ Encoder.takenBehind [] front :=
  newName_iff (fun name => by simp [Encoder.mem_takenBehind]) key

/-- Names of their own up to and including a new one. -/
theorem hasNames_concat_iff {front : List (Key × Node)} {key : Key} :
    Encoder.HasNames [] (front ++ [(key, v)]) ↔
      Encoder.HasNames [] front ∧ NewName front key := by
  rw [Encoder.hasNames_append, takenBehind_newName]
  simp [Encoder.HasNames]

theorem look_of_failsWith {p : Part} (h : e.FailsWith p.node fault) :
    p.look (e.accepts budget) = p.open := by
  refine look_of_fails (Bool.eq_false_iff.2 fun haccepted => ?_)
  obtain ⟨w, hw⟩ := accepts_iff.1 haccepted
  exact h.not_encodes ⟨budget, w, hw⟩

/-- **What is seen in a part that fails is shown** where the part comes first. -/
theorem Shows.of_failsWith {p : Part} (hfails : e.FailsWith p.node fault)
    (h : Shows (e.accepts budget) p.open path) (findings : List (String × Node))
    (parts : List Part) : Shows (e.accepts budget) (findings, p :: parts) path := by
  rw [← look_of_failsWith hfails] at h
  exact Or.inr ⟨p, List.mem_cons_self .., exists_reaches_of_shows h⟩

/-- **A bad key behind entries that encode** is the fault of the object, and a search shows
the path of it. -/
theorem badKey_explains {front : List (Key × Node)} {key : Key} (path : String)
    (hnames : Encoder.HasNames [] front) (hfront : ∀ entry ∈ front, e.Encodes entry.2)
    (hnew : ¬ NewName front key) (rest : List (Key × Node)) :
    ∃ fault, e.FailsWith (.object (front ++ (key, v) :: rest)) fault ∧
      (Defect.badKey path key).Explains e fault ∧
      Shows encodes (entryParts path (Encoder.takenBehind [] front) ((key, v) :: rest))
        (keyPath path key) := by
  have hbad : ¬ Encoder.HasNames [] (front ++ [(key, v)]) := fun hnames' =>
    hnew (hasNames_concat_iff.1 hnames').2
  refine ⟨_, Encoder.failsWith_object_of_badKey hnames hfront hbad rest, ⟨key.text, rfl, rfl⟩,
    Or.inl ⟨key.toNode, ?_⟩⟩
  rw [entryParts_of_bad]
  · exact List.mem_cons_self ..
  · intro name hname
    by_contra hfree
    exact hnew (takenBehind_newName.2 ⟨name, hname, hfree⟩)

open Classical in
/-- A value without parts has itself for a fault if it fails. -/
theorem first_defect_leaf (hreturns : (e.toJson budget v).isSome)
    (hdefects : defectsIn e.Fails path v = if e.Fails v then [.leaf path v] else [])
    (hopen : (⟨v, path, 0⟩ : Part).open = ([(path, v)], [])) :
    (defectsIn e.Fails path v = [] → e.Encodes v) ∧
    ∀ d rest, defectsIn e.Fails path v = d :: rest → ∃ fault, e.FailsWith v fault ∧
      d.Explains e fault ∧ Shows (e.accepts budget) ((⟨v, path, 0⟩ : Part).open) d.path := by
  rw [hdefects, hopen]
  by_cases hfails : e.Fails v
  · rw [if_pos hfails]
    refine ⟨fun h => absurd h (List.cons_ne_nil _ _), fun d rest h => ?_⟩
    obtain ⟨rfl, -⟩ := List.cons.inj h
    obtain ⟨budget', fault, hfault⟩ := hfails
    exact ⟨fault, ⟨budget', hfault⟩, ⟨budget', hfault⟩, Or.inl ⟨v, List.mem_singleton.2 rfl⟩⟩
  · rw [if_neg hfails]
    refine ⟨fun _ => (encodes_iff_accepts hreturns).2 ?_, fun d rest h => by cases h⟩
    rwa [fails_iff_accepts hreturns, Bool.not_eq_false] at hfails

mutual

/-- **A node without faults encodes; otherwise the first fault explains its error**, and
what a search sees of the node shows the path of it. -/
theorem first_defect (path : String) (v : Node)
    (hplain : ∀ m, v.Within m → ∀ tag rendering, m ≠ .record tag rendering)
    (hreturns : Returns e budget v) :
    (defectsIn e.Fails path v = [] → e.Encodes v) ∧
    ∀ d rest, defectsIn e.Fails path v = d :: rest → ∃ fault, e.FailsWith v fault ∧
      d.Explains e fault ∧ Shows (e.accepts budget) ((⟨v, path, 0⟩ : Part).open) d.path := by
  match v with
  | .array items =>
    rw [defectsIn]
    obtain ⟨hnone, hfirst⟩ := first_defect_items path 0 items
      (fun u hu m hm => hplain m (.trans (.item .self hu) hm))
      (fun u hu m hm => hreturns m (.trans (.item .self hu) hm))
    refine ⟨fun h => Encoder.encodes_array_iff.2 (hnone h), fun d rest h => ?_⟩
    obtain ⟨front, u, after, fault, rfl, hfront, hu, hexplains, hshows⟩ := hfirst d rest h
    exact ⟨fault, hu.array hfront after, hexplains, hshows⟩
  | .object entries =>
    rw [defectsIn]
    obtain ⟨hnone, hfirst⟩ := first_defect_entries path [] entries
      (fun entry hentry m hm => hplain m (.trans (.value .self hentry) hm))
      (fun entry hentry m hm => hreturns m (.trans (.value .self hentry) hm)) trivial (by simp)
    exact ⟨fun h => Encoder.encodes_object_iff.2 (hnone h), hfirst⟩
  | .record tag rendering => exact absurd rfl (hplain _ .self tag rendering)
  | .null | .bool _ | .int _ | .uint _ | .float _ | .string _ | .set _ | .timestamp _
  | .duration _ | .bytes _ | .foreign _ _ =>
    exact first_defect_leaf (hreturns _ .self) (by simp only [defectsIn]) rfl

theorem first_defect_items (path : String) (index : Nat) (items : List Node)
    (hplain : ∀ u ∈ items, ∀ m, u.Within m → ∀ tag rendering, m ≠ .record tag rendering)
    (hreturns : ∀ u ∈ items, Returns e budget u) :
    (defectsInItems e.Fails path index items = [] → ∀ u ∈ items, e.Encodes u) ∧
    ∀ d rest, defectsInItems e.Fails path index items = d :: rest →
      ∃ front u after fault, items = front ++ u :: after ∧ (∀ w ∈ front, e.Encodes w) ∧
        e.FailsWith u fault ∧ d.Explains e fault ∧
        Shows (e.accepts budget) ([], itemParts path index items) d.path := by
  match items with
  | [] => exact ⟨fun _ => by simp, fun d rest h => by rw [defectsInItems] at h; cases h⟩
  | u :: others =>
    obtain ⟨hplainu, hplain⟩ := List.forall_mem_cons.1 hplain
    obtain ⟨hreturnsu, hreturns⟩ := List.forall_mem_cons.1 hreturns
    obtain ⟨hnone, hfirst⟩ := first_defect (itemPath path index) u hplainu hreturnsu
    obtain ⟨hnones, hfirsts⟩ := first_defect_items path (index + 1) others hplain hreturns
    rw [defectsInItems]
    cases hdefects : defectsIn e.Fails (itemPath path index) u with
    | nil =>
      have hu := hnone hdefects
      refine ⟨fun h => List.forall_mem_cons.2 ⟨hu, hnones h⟩, fun d rest h => ?_⟩
      obtain ⟨front, w, after, fault, rfl, hfront, hw, hexplains, hshows⟩ := hfirsts d rest h
      exact ⟨u :: front, w, after, fault, rfl, List.forall_mem_cons.2 ⟨hu, hfront⟩, hw,
        hexplains, hshows.mono (fun _ hfinding => hfinding)
          fun p hp => List.mem_cons_of_mem _ hp⟩
    | cons d' defects =>
      refine ⟨fun h => absurd h (List.cons_ne_nil _ _), fun d rest h => ?_⟩
      obtain ⟨rfl, -⟩ := List.cons.inj h
      obtain ⟨fault, hu, hexplains, hshows⟩ := hfirst d' defects hdefects
      exact ⟨[], u, others, fault, rfl, by simp, hu, hexplains, hshows.of_failsWith hu _ _⟩

theorem first_defect_entries (path : String) (front entries : List (Key × Node))
    (hplain : ∀ entry ∈ entries, ∀ m, entry.2.Within m →
      ∀ tag rendering, m ≠ .record tag rendering)
    (hreturns : ∀ entry ∈ entries, Returns e budget entry.2)
    (hnames : Encoder.HasNames [] front) (hfront : ∀ entry ∈ front, e.Encodes entry.2) :
    (defectsInEntries e.Fails path front entries = [] →
      Encoder.HasNames [] (front ++ entries) ∧ ∀ entry ∈ front ++ entries, e.Encodes entry.2) ∧
    ∀ d rest, defectsInEntries e.Fails path front entries = d :: rest →
      ∃ fault, e.FailsWith (.object (front ++ entries)) fault ∧ d.Explains e fault ∧
        Shows (e.accepts budget)
          (entryParts path (Encoder.takenBehind [] front) entries) d.path := by
  match entries with
  | [] =>
    rw [List.append_nil]
    exact ⟨fun _ => ⟨hnames, hfront⟩, fun d rest h => by rw [defectsInEntries] at h; cases h⟩
  | (key, u) :: others =>
    obtain ⟨hplainu, hplain⟩ := List.forall_mem_cons.1 hplain
    obtain ⟨hreturnsu, hreturns⟩ := List.forall_mem_cons.1 hreturns
    rw [defectsInEntries]
    by_cases hnew : NewName front key
    -- a good key is in front of whatever is in its value; a bad one is the fault itself
    · rw [if_pos hnew, List.nil_append]
      have hnames' : Encoder.HasNames [] (front ++ [(key, u)]) :=
        hasNames_concat_iff.2 ⟨hnames, hnew⟩
      obtain ⟨name, hname, hfree⟩ := takenBehind_newName.1 hnew
      rw [entryParts_of_good hname hfree]
      obtain ⟨hnone, hfirst⟩ := first_defect (valuePath path key) u hplainu hreturnsu
      cases hdefects : defectsIn e.Fails (valuePath path key) u with
      | nil =>
        have hfront' : ∀ entry ∈ front ++ [(key, u)], e.Encodes entry.2 := by
          intro entry hentry
          rcases List.mem_append.1 hentry with hentry | hentry
          · exact hfront entry hentry
          · obtain rfl := List.mem_singleton.1 hentry
            exact hnone hdefects
        obtain ⟨hnones, hfirsts⟩ :=
          first_defect_entries path (front ++ [(key, u)]) others hplain hreturns hnames' hfront'
        have htaken : Encoder.takenBehind [] (front ++ [(key, u)]) =
            name :: Encoder.takenBehind [] front := by
          rw [Encoder.takenBehind_append, Encoder.takenBehind, hname]
          rfl
        rw [List.append_assoc, List.singleton_append, htaken] at hfirsts
        rw [List.append_assoc, List.singleton_append] at hnones
        refine ⟨hnones, fun d rest h => ?_⟩
        obtain ⟨fault, hfault, hexplains, hshows⟩ := hfirsts d rest h
        exact ⟨fault, hfault, hexplains, hshows.mono (fun _ hfinding => hfinding)
          fun p hp => List.mem_cons_of_mem _ hp⟩
      | cons d' defects =>
        refine ⟨fun h => absurd h (List.cons_ne_nil _ _), fun d rest h => ?_⟩
        obtain ⟨rfl, -⟩ := List.cons.inj h
        obtain ⟨fault, hu, hexplains, hshows⟩ := hfirst d' defects hdefects
        exact ⟨fault, hu.object hnames' hfront others, hexplains, hshows.of_failsWith hu _ _⟩
    · rw [if_neg hnew]
      refine ⟨fun h => absurd h (List.cons_ne_nil _ _), fun d rest h => ?_⟩
      obtain ⟨rfl, -⟩ := List.cons.inj h
      exact badKey_explains path hnames hfront hnew others

end

/-- **The error of a node is its first fault, and the report has the path of it**, for
every encoder that returns on all that lies in the node, if no record does. A value at
fault fails with that error on its own; and a bad key is named in the error by the name
that ends its path. -/
theorem error_first_defect (e : Encoder) (v : Node)
    (hplain : ∀ m, v.Within m → ∀ tag rendering, m ≠ .record tag rendering)
    (hreturns : ∀ m, v.Within m → ∃ budget, (e.toJson budget m).isSome) :
    (∃ least, ∀ budget, least ≤ budget → Returns e budget v) ∧
    ∀ budget, Returns e budget v → ∀ fault, e.toJson budget v = some (.error fault) →
      ∃ d rest, defectsIn e.Fails "$" v = d :: rest ∧ (e.diagnose budget v).Has d.path ∧
        d.Explains e fault := by
  refine ⟨?_, fun budget hbudget fault hfault => ?_⟩
  · obtain ⟨least, hleast⟩ := exists_returns v hreturns
    exact ⟨least, fun budget hle => hleast.mono hle⟩
  obtain ⟨hnone, hfirst⟩ := first_defect "$" v hplain hbudget
  have hfails : e.FailsWith v fault := ⟨budget, hfault⟩
  cases hdefects : defectsIn e.Fails "$" v with
  | nil => exact absurd (hnone hdefects) hfails.not_encodes
  | cons d rest =>
    obtain ⟨fault', hfails', hexplains, hshows⟩ := hfirst d rest hdefects
    obtain rfl := hfails.unique hfails'
    refine ⟨d, rest, rfl, has_report_iff.2 (exists_reaches_of_shows ?_), hexplains⟩
    rwa [look_of_failsWith (p := .root v) hfails]

/-- Faults at three depths, the deepest first in the text. -/
def faultsAtDepths : Node :=
  .object [(.string "deep", .array [.set []]), (.string "flat", .bytes []), (.string "flat", .null)]

/-- The first fault in the text is the set in the list, though the report has the bad
key first and the set last. -/
theorem error_first_defect_faultsAtDepths :
    Returns Encoder.strict 4 faultsAtDepths ∧
      Encoder.strict.toJson 4 faultsAtDepths = some (.error (.unsupported "set")) ∧
      ∃ rest, defectsIn Encoder.strict.Fails "$" faultsAtDepths =
          .leaf "$.deep[0]" (.set []) :: rest ∧
        (Encoder.strict.diagnose 4 faultsAtDepths).Has "$.deep[0]" := by
  have hparts : ∀ m, faultsAtDepths.Within m →
      m = faultsAtDepths ∨ m = .array [.set []] ∨ m = .set [] ∨ m = .bytes [] ∨ m = .null := by
    intro m hm
    induction hm with
    | self => exact Or.inl rfl
    | item _ hv ih =>
      rcases ih with h | h | h | h | h <;> cases h
      simp_all
    | value _ hentry ih =>
      rcases ih with h | h | h | h | h <;> cases h
      simp at hentry
      rcases hentry with rfl | rfl | rfl <;> simp
  have hreturns : Returns Encoder.strict 4 faultsAtDepths := by
    intro m hm
    rcases hparts m hm with rfl | rfl | rfl | rfl | rfl <;> rfl
  obtain ⟨d, rest, hd, hhas, -⟩ := (error_first_defect Encoder.strict faultsAtDepths
    (fun m hm => by rcases hparts m hm with rfl | rfl | rfl | rfl | rfl <;> simp [faultsAtDepths])
    (fun m hm => ⟨4, hreturns m hm⟩)).2 4 hreturns _ rfl
  have hset : Encoder.strict.Fails (.set []) := ⟨1, _, rfl⟩
  have hnew : NewName [] (.string "deep") := ⟨"deep", rfl, by simp⟩
  have hfirst : ∃ rest, defectsIn Encoder.strict.Fails "$" faultsAtDepths =
      .leaf "$.deep[0]" (.set []) :: rest := by
    rw [faultsAtDepths, defectsIn, defectsInEntries, if_pos hnew, defectsIn, defectsInItems]
    simp only [defectsIn, if_pos hset]
    exact ⟨_, rfl⟩
  obtain ⟨rest', hrest⟩ := hfirst
  rw [hrest] at hd
  obtain ⟨rfl, -⟩ := List.cons.inj hd
  exact ⟨hreturns, rfl, rest', hrest, hhas⟩

end Diagnosis

end DocStore
