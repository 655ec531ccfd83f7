import DocStore.Proofs.Diagnosis.Layers
import DocStore.Proofs.Diagnosis.Located
import DocStore.Proofs.Diagnosis.Paths
import DocStore.Proofs.Encoding.Acceptance
import Mathlib.Data.List.Basic
/-!
# The order of a report

What fails in a node forms a tree: a part that does not encode has the parts
inside it for children, and what it adds to the report by itself for findings.
The layers that the search takes one after the other are the levels of the tree,
each from left to right (`layers_eq_levelOrder`), and the report has the findings in
that order (`diagnose_levelOrder`).
-/

namespace DocStore

/-- A record. -/
def Node.IsRecord (n : Node) : Prop := ∃ tag rendering, n = .record tag rendering

/-- **A node fails to encode**, given a budget that suffices. -/
def Encoder.Fails (e : Encoder) (n : Node) : Prop :=
  ∃ budget fault, e.toJson budget n = some (.error fault)

namespace Diagnosis

variable {encodes : Node → Bool} {fails fails' : Node → Prop} {e : Encoder} {p q : Part}

/-! ## The tree of failures -/

/-- **A key with a new name**: it has a name, and none of the entries in front has
that name too. -/
def NewName (before : List (Key × Node)) (key : Key) : Prop :=
  ∃ name, key.name = .ok name ∧ ∀ entry ∈ before, entry.1.name ≠ .ok name

open Classical in
/-- **The children of a part that fails**: what a record renders to, unless
`chainLimit` records in a row led to it, the elements of an array, and the values
of an object under new names. Nothing else has children. -/
noncomputable def Part.children (fails : Node → Prop) (p : Part) : List Part :=
  if fails p.node then
    match p.node with
    | .record tag rendering =>
      if p.replaced < Encoder.chainLimit then
        [⟨Node.rendered tag rendering, recordPath p.path tag, p.replaced + 1⟩]
      else []
    | .array items => items.mapIdx fun i v => ⟨v, itemPath p.path i, 0⟩
    | .object entries =>
      (entries.zipIdx.filter fun x => NewName (entries.take x.2) x.1.1).map fun x =>
        ⟨x.1.2, valuePath p.path x.1.1, 0⟩
    | _ => []
  else []

open Classical in
/-- **The findings of a part that fails**: itself, if it is a record at the limit
or nothing that has parts, and the keys of an object without a new name. -/
noncomputable def Part.emissions (fails : Node → Prop) (p : Part) : List (String × Node) :=
  if fails p.node then
    match p.node with
    | .record _ _ => if Encoder.chainLimit ≤ p.replaced then [(p.path, p.node)] else []
    | .array _ => []
    | .object entries =>
      (entries.zipIdx.filter fun x => ¬ NewName (entries.take x.2) x.1.1).map fun x =>
        (keyPath p.path x.1.1, x.1.1.toNode)
    | leaf => [(p.path, leaf)]
  else []

/-- **The parts so many levels below a part**, from left to right. -/
noncomputable def Part.below (fails : Node → Prop) : (depth : Nat) → Part → List Part
  | 0, p => [p]
  | depth + 1, p => (p.children fails).flatMap (Part.below fails depth)

/-- **The findings in level order**, in and below parts that stand beside each
other: depth by depth, as many as are asked for, and from left to right. -/
noncomputable def levelOrder (fails : Node → Prop) (depths : Nat) (level : List Part) :
    List (String × Node) :=
  (List.range depths).flatMap fun depth =>
    level.flatMap fun p => (p.below fails depth).flatMap (Part.emissions fails)

/-! ## What the search sees of the tree -/

/-- Names are taken where they are those of entries in front. -/
theorem newName_iff {front : List (Key × Node)} {taken : List String}
    (htaken : ∀ name, name ∈ taken ↔ ∃ entry ∈ front, entry.1.name = .ok name) (key : Key) :
    NewName front key ↔ ∃ name, key.name = .ok name ∧ name ∉ taken := by
  constructor
  · rintro ⟨name, hname, hnew⟩
    refine ⟨name, hname, fun hmem => ?_⟩
    obtain ⟨entry, hentry, heq⟩ := (htaken name).1 hmem
    exact hnew entry hentry heq
  · rintro ⟨name, hname, hfree⟩
    exact ⟨name, hname, fun entry hentry heq => hfree ((htaken name).2 ⟨entry, hentry, heq⟩)⟩

open Classical in
/-- **The good and the bad keys among entries are those with and without a new
name**, when the names taken are those of the entries in front. -/
theorem goodEntries_badKeys_eq {all front entries : List (Key × Node)} {taken : List String}
    (hall : all = front ++ entries)
    (htaken : ∀ name, name ∈ taken ↔ ∃ entry ∈ front, entry.1.name = .ok name) :
    goodEntries taken entries =
        (((entries.zipIdx front.length).filter fun x =>
          NewName (all.take x.2) x.1.1).map fun x => x.1) ∧
      badKeys taken entries =
        (((entries.zipIdx front.length).filter fun x =>
          ¬ NewName (all.take x.2) x.1.1).map fun x => x.1.1) := by
  induction entries generalizing front taken with
  | nil => exact ⟨rfl, rfl⟩
  | cons entry rest ih =>
    obtain ⟨key, v⟩ := entry
    have hfront : all.take front.length = front := by rw [hall, List.take_left]
    have hall' : all = (front ++ [(key, v)]) ++ rest := by rw [hall, ← List.append_cons]
    have hlength : (front ++ [(key, v)]).length = front.length + 1 := by simp
    have hnew := newName_iff htaken key
    rw [List.zipIdx_cons, List.filter_cons, List.filter_cons, goodEntries, badKeys]
    simp only [hfront]
    -- an entry in front of the rest takes its name if it has one
    cases hname : key.name with
    | error fault =>
      have htaken' : ∀ name, name ∈ taken ↔
          ∃ entry ∈ front ++ [(key, v)], entry.1.name = .ok name := by
        intro name
        rw [htaken name]
        simp [or_and_right, exists_or, hname]
      obtain ⟨hgood, hbad⟩ := ih hall' htaken'
      rw [hlength] at hgood hbad
      have hold : ¬ NewName front key := by simp [hnew, hname]
      simp [hold, hgood, hbad]
    | ok name =>
      have htaken' : ∀ other, other ∈ name :: taken ↔
          ∃ entry ∈ front ++ [(key, v)], entry.1.name = .ok other := by
        intro other
        rw [List.mem_cons, htaken other]
        simp [or_and_right, exists_or, hname, eq_comm, or_comm]
      by_cases hmem : name ∈ taken
      · -- a name that is taken already adds nothing
        have hsame : ∀ other, other ∈ taken ↔
            ∃ entry ∈ front ++ [(key, v)], entry.1.name = .ok other := by
          intro other
          rw [← htaken' other, List.mem_cons]
          exact ⟨Or.inr, fun hor => hor.elim (fun heq => heq ▸ hmem) id⟩
        obtain ⟨hgood, hbad⟩ := ih hall' hsame
        rw [hlength] at hgood hbad
        have hold : ¬ NewName front key := by simp [hnew, hname, hmem]
        simp [hold, hmem, hgood, hbad]
      · obtain ⟨hgood, hbad⟩ := ih hall' htaken'
        rw [hlength] at hgood hbad
        have hfresh : NewName front key := hnew.2 ⟨name, hname, hmem⟩
        simp [hfresh, hmem, hgood, hbad]

theorem itemParts_eq_mapIdx (path : String) (items : List Node) :
    itemParts path 0 items = items.mapIdx fun i v => ⟨v, itemPath path i, 0⟩ := by
  refine List.ext_getElem? fun i => ?_
  rw [getElem?_itemParts, List.getElem?_mapIdx, Nat.zero_add]

/-- **Looking at a part gives its findings and its children.** -/
theorem look_eq (h : ∀ n, encodes n = false ↔ fails n) (p : Part) :
    p.look encodes = (p.emissions fails, p.children fails) := by
  cases hencodes : encodes p.node with
  | true =>
    have hfails : ¬ fails p.node := by
      rw [← h, hencodes]
      exact Bool.noConfusion
    rw [look_of_encodes hencodes, Part.emissions, Part.children, if_neg hfails, if_neg hfails]
  | false =>
    have hfails : fails p.node := (h p.node).1 hencodes
    rw [look_of_fails hencodes, Part.emissions, Part.children, if_pos hfails, if_pos hfails]
    obtain ⟨node, path, replaced⟩ := p
    cases node with
    | array items => simp only [Part.open, itemParts_eq_mapIdx]
    | object entries =>
      have hnone : ∀ name, name ∈ ([] : List String) ↔
          ∃ entry ∈ ([] : List (Key × Node)), entry.1.name = .ok name := by simp
      obtain ⟨hgood, hbad⟩ := goodEntries_badKeys_eq (List.nil_append entries).symm hnone
      simp only [List.length_nil] at hgood hbad
      simp only [Part.open, entryParts_eq, hgood, hbad, List.map_map, Function.comp_def]
    | record tag rendering =>
      by_cases hlimit : Encoder.chainLimit ≤ replaced
      · simp [Part.open, hlimit, Nat.not_lt.2 hlimit]
      · simp [Part.open, hlimit, Nat.not_le.1 hlimit]
    | _ => rfl

/-! ## Level by level -/

/-- The first level, and then the levels below it. -/
theorem levelOrder_succ (depths : Nat) (level : List Part) :
    levelOrder fails (depths + 1) level =
      level.flatMap (Part.emissions fails) ++
        levelOrder fails depths (level.flatMap (Part.children fails)) := by
  have hbelow : ∀ depth, (level.flatMap fun p =>
      (p.below fails (depth + 1)).flatMap (Part.emissions fails)) =
      (level.flatMap (Part.children fails)).flatMap fun p =>
        (p.below fails depth).flatMap (Part.emissions fails) := by
    intro depth
    simp only [Part.below, List.flatMap_assoc]
  rw [levelOrder, List.range_succ_eq_map, List.flatMap_cons, List.flatMap_map, levelOrder]
  simp only [hbelow]
  simp [Part.below]

/-- **The layers that a search looks at are the levels of the tree.** -/
theorem layers_eq_levelOrder (h : ∀ n, encodes n = false ↔ fails n) (depths : Nat)
    (level : List Part) :
    layers (Part.look encodes) depths level = levelOrder fails depths level := by
  have hlook : Part.look encodes = fun p => (p.emissions fails, p.children fails) :=
    funext (look_eq h)
  rw [hlook]
  induction depths generalizing level with
  | zero => rfl
  | succ depths ih => rw [layers, ih, levelOrder_succ]

/-- **The report has all findings in level order.** -/
theorem report_eq_levelOrder (h : ∀ n, encodes n = false ↔ fails n) (v : Node) :
    report encodes v = Report.insertAll (levelOrder fails (positions 0 v) [.root v]) [] := by
  rw [report, run_start (Nat.le_refl _), layers_eq_levelOrder h]

/-! ## How deep the tree is -/

open Classical in
/-- **A part has no more levels than positions.** -/
theorem below_eq_nil {depth : Nat} (h : p.weight ≤ depth) : p.below fails depth = [] := by
  induction depth generalizing p with
  | zero =>
    have hpos : 0 < p.weight := weight_pos p
    omega
  | succ depth ih =>
    rw [Part.below, List.flatMap_eq_nil_iff]
    intro q hq
    have hdecide : ∀ n, (fun n => decide (¬ fails n)) n = false ↔ fails n := by simp
    have hlook := look_eq hdecide p
    have hless : weights (p.look fun n => decide (¬ fails n)).2 < p.weight := weights_look_lt p
    have hle : q.weight ≤ weights (p.children fails) := weight_le_weights hq
    rw [hlook] at hless
    dsimp only at hless
    exact ih (by omega)

/-- What the way into a node leads to, and on from there. -/
theorem meets_of_mem_children (hq : q ∈ p.children fails) {v : Node}
    (hp : v.Meets Node.IsRecord p.node) : v.Meets Node.IsRecord q.node := by
  rw [Part.children] at hq
  split at hq
  · obtain ⟨node, path, replaced⟩ := p
    cases node with
    | array items =>
      obtain ⟨i, hi, rfl⟩ := List.mem_mapIdx.1 hq
      exact hp.item (List.getElem_mem hi)
    | object entries =>
      obtain ⟨x, hx, rfl⟩ := List.mem_map.1 hq
      have hmem : x.1 ∈ entries := List.fst_mem_of_mem_zipIdx (List.mem_filter.1 hx).1
      exact hp.value hmem
    | record tag rendering =>
      dsimp only at hq
      split at hq
      · obtain rfl := List.mem_singleton.1 hq
        exact hp.rendering ⟨tag, rendering, rfl⟩
      · cases hq
    | _ => cases hq
  · cases hq

theorem meets_of_mem_below {depth : Nat} (hq : q ∈ p.below fails depth) {v : Node}
    (hp : v.Meets Node.IsRecord p.node) : v.Meets Node.IsRecord q.node := by
  induction depth generalizing p with
  | zero =>
    obtain rfl := List.mem_singleton.1 hq
    exact hp
  | succ depth ih =>
    obtain ⟨u, hu, hq⟩ := List.mem_flatMap.1 hq
    exact ih hq (meets_of_mem_children hu hp)

/-! ## Parts that fail in the same way -/

theorem children_congr (h : fails p.node ↔ fails' p.node) :
    p.children fails = p.children fails' ∧ p.emissions fails = p.emissions fails' := by
  unfold Part.children Part.emissions
  by_cases hfails : fails p.node
  · rw [if_pos hfails, if_pos (h.1 hfails), if_pos hfails, if_pos (h.1 hfails)]
    exact ⟨rfl, rfl⟩
  · rw [if_neg hfails, if_neg (mt h.2 hfails), if_neg hfails, if_neg (mt h.2 hfails)]
    exact ⟨rfl, rfl⟩

/-- **Where all parts of the tree fail under both, the trees are the same.** -/
theorem below_congr (h : ∀ depth, ∀ q ∈ p.below fails depth, (fails q.node ↔ fails' q.node))
    (depth : Nat) :
    p.below fails depth = p.below fails' depth ∧
      (p.below fails depth).flatMap (Part.emissions fails) =
        (p.below fails' depth).flatMap (Part.emissions fails') := by
  have hbelow : p.below fails depth = p.below fails' depth := by
    induction depth generalizing p with
    | zero => rfl
    | succ depth ih =>
      have hself := (children_congr (h 0 p (List.mem_singleton.2 rfl))).1
      rw [Part.below, Part.below, ← hself]
      refine List.flatMap_congr fun q hq => ih fun depth' u hu => ?_
      exact h (depth' + 1) u (List.mem_flatMap.2 ⟨q, hq, hu⟩)
  refine ⟨hbelow, ?_⟩
  rw [← hbelow]
  exact List.flatMap_congr fun q hq => (children_congr (h depth q hq)).2

/-! ## What a budget sees -/

/-- Where encoding returns, refusing a node means that it fails. -/
theorem fails_iff_accepts {budget : Nat} {n : Node} (h : (e.toJson budget n).isSome) :
    e.Fails n ↔ e.accepts budget n = false := by
  obtain ⟨result, hresult⟩ := Option.isSome_iff_exists.1 h
  rw [← Bool.not_eq_true, accepts_iff, hresult]
  constructor
  · rintro ⟨budget', fault, hfault⟩ ⟨w, hw⟩
    have hsame := Encoder.toJson_unique hfault hresult
    rw [Option.some.inj hw] at hsame
    cases hsame
  · intro hrefused
    cases result with
    | error fault => exact ⟨budget, fault, hresult⟩
    | ok w => exact absurd ⟨w, rfl⟩ hrefused

/-! ## The diagnosis -/

/-- **The report is the level-order listing of the tree of failures**, for every
encoder that returns on what the search may ask about. No part of the tree is as
deep as there are positions in the node; and within every budget that is large
enough the report is what comes of entering the findings depth by depth and from
left to right. -/
theorem diagnose_levelOrder (e : Encoder) (v : Node)
    (hreturns : ∀ m, v.Meets Node.IsRecord m → ∃ budget, (e.toJson budget m).isSome) :
    (∀ depth, positions 0 v ≤ depth → (Part.root v).below e.Fails depth = []) ∧
    ∃ least, ∀ budget, least ≤ budget →
      (∀ depth, ∀ q ∈ (Part.root v).below e.Fails depth, (e.toJson budget q.node).isSome) ∧
      ∀ depths, positions 0 v ≤ depths →
        e.diagnose budget v = Report.insertAll (levelOrder e.Fails depths [.root v]) [] := by
  have hdeep : ∀ depth, positions 0 v ≤ depth → (Part.root v).below e.Fails depth = [] :=
    fun depth hdepth => below_eq_nil hdepth
  refine ⟨hdeep, ?_⟩
  -- the tree has finitely many parts, so one budget does for all
  have hmono : ∀ (n : Node) (budget budget' : Nat), budget ≤ budget' →
      (e.toJson budget n).isSome → (e.toJson budget' n).isSome :=
    fun n budget budget' => Encoder.isSome_of_le
  obtain ⟨least, hleast⟩ := Encoder.exists_least hmono
    (((List.range (positions 0 v)).flatMap fun depth =>
      (Part.root v).below e.Fails depth).map Part.node) (by
      intro n hn
      obtain ⟨q, hq, rfl⟩ := List.mem_map.1 hn
      obtain ⟨depth, -, hq⟩ := List.mem_flatMap.1 hq
      exact hreturns q.node (meets_of_mem_below (p := .root v) hq .self))
  refine ⟨least, fun budget hbudget => ?_⟩
  have hsome : ∀ depth, ∀ q ∈ (Part.root v).below e.Fails depth,
      (e.toJson budget q.node).isSome := by
    intro depth q hq
    have hdepth : depth < positions 0 v := by
      by_contra hge
      rw [hdeep depth (by omega)] at hq
      cases hq
    exact hleast budget hbudget q.node (List.mem_map.2 ⟨q, List.mem_flatMap.2
      ⟨depth, List.mem_range.2 hdepth, hq⟩, rfl⟩)
  refine ⟨hsome, fun depths hdepths => ?_⟩
  have hsame : ∀ depth, (((Part.root v).below e.Fails depth).flatMap (Part.emissions e.Fails)) =
      ((Part.root v).below (fun n => e.accepts budget n = false) depth).flatMap
        (Part.emissions fun n => e.accepts budget n = false) :=
    fun depth => (below_congr (fun depth' q hq => fails_iff_accepts (hsome depth' q hq)) depth).2
  have hlevels : levelOrder e.Fails depths [.root v] =
      levelOrder (fun n => e.accepts budget n = false) (positions 0 v) [.root v] := by
    obtain ⟨more, rfl⟩ : ∃ more, depths = positions 0 v + more := ⟨depths - positions 0 v, by omega⟩
    simp only [levelOrder, List.flatMap_singleton]
    have hnone : ((List.range more).map (positions 0 v + ·)).flatMap (fun depth =>
        ((Part.root v).below e.Fails depth).flatMap (Part.emissions e.Fails)) = [] := by
      rw [List.flatMap_eq_nil_iff]
      intro depth hdepth
      obtain ⟨k, -, rfl⟩ := List.mem_map.1 hdepth
      rw [hdeep _ (Nat.le_add_right ..), List.flatMap_nil]
    rw [List.range_add, List.flatMap_append, hnone, List.append_nil]
    simp only [hsame]
  rw [hlevels, Encoder.diagnose]
  exact report_eq_levelOrder (fun _ => Iff.rfl) v

/-- Faults at three depths, the deepest first in the text and behind a record. -/
def faultsBehindRecord : Node :=
  .object [(.string "deep", .record ⟨"R", none, 0⟩ (some (.array [.bytes [1]]))),
    (.string "flat", .bytes []), (.string "flat", .null)]

/-- The key that repeats a name is found before the values of the object, and last what
the record renders to, behind its label. -/
theorem diagnose_levelOrder_faultsBehindRecord :
    (∃ least, ∀ budget, least ≤ budget → Encoder.standard.diagnose budget faultsBehindRecord =
      Report.insertAll (levelOrder Encoder.standard.Fails 7 [.root faultsBehindRecord]) []) ∧
    Encoder.standard.diagnose 7 faultsBehindRecord =
      [("$<key: flat>", .string "flat"), ("$.flat", .bytes []), ("$.deep(R)[0]", .bytes [1])] := by
  refine ⟨?_, rfl⟩
  obtain ⟨-, least, hleast⟩ := diagnose_levelOrder Encoder.standard faultsBehindRecord fun m _ =>
    ⟨m.height, Encoder.Stock.standard.isSome_toJson (Nat.le_refl _)⟩
  exact ⟨least, fun budget hbudget => (hleast budget hbudget).2 7 (by decide)⟩

end Diagnosis

end DocStore
