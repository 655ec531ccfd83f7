import DocStore.Proofs.Diagnosis.Layers
import DocStore.Proofs.Diagnosis.Located
import DocStore.Proofs.Encoding.Calls
/-!
# Encoding and searching come to an end

A node has finitely many places: itself, and those in its elements, in its values and in
what its records render to. A search looks at each of them once at most, so no part waits
any longer when as many were looked at (`run_of_places`). A record that renders to itself
is replaced as often as the limit allows: the search comes to it under paths with more and
more labels (`reaches_unending_iff`), and it is a finding under the last of them.
-/

namespace DocStore

namespace Node

mutual

/-- **The places in a node**, reached through elements, values and renderings. A record
that renders to itself counts as one for itself and one for each time it is replaced. -/
def places : Node → Nat
  | .array items => placesAll items + 1
  | .object entries => placesEntries entries + 1
  | .record _ rendering => placesRendering rendering + 1
  | _ => 1

/-- The places in what a record renders to. -/
def placesRendering : Option Node → Nat
  | some n => places n
  | none => Encoder.chainLimit

/-- The places in all elements. -/
def placesAll : List Node → Nat
  | [] => 0
  | v :: rest => places v + placesAll rest

/-- The places in all values. -/
def placesEntries : List (Key × Node) → Nat
  | [] => 0
  | (_, v) :: rest => places v + placesEntries rest

end

end Node

namespace Encoder

variable {e : Encoder} {n : Node}

/-- **A value that has nothing but itself for a substitute does not encode.** -/
theorem not_encodes_of_own (hnative : n.isNative = false)
    (hown : ∀ substitute, e.fallback n = some substitute → substitute = n) : ¬ e.Encodes n := by
  rw [encodes_iff_takes]
  rintro ⟨k, -, htakes⟩
  induction k with
  | zero => exact Bool.noConfusion (hnative.symm.trans (takes_zero.1 htakes).1)
  | succ k ih =>
    obtain ⟨-, substitute, hsubstitute, htakes⟩ := takes_succ.1 htakes
    exact ih (hown substitute hsubstitute ▸ htakes)

/-- **A record that renders to itself does not encode** under a stock encoder. -/
theorem Stock.not_encodes_unending (he : e.Stock) (tag : RecordTag) :
    ¬ e.Encodes (.record tag none) := by
  refine not_encodes_of_own rfl fun substitute hsubstitute => ?_
  cases he.substitutes rfl hsubstitute
  rfl

end Encoder

namespace Diagnosis

variable {encodes : Node → Bool} {e : Encoder} {budget : Nat} {tag : RecordTag} {path : String}
  {v : Node}

/-! ## How many parts are looked at -/

mutual

theorem positions_le_places (replaced : Nat) (n : Node) : positions replaced n ≤ n.places := by
  match n with
  | .array items =>
    rw [positions, Node.places]
    exact Nat.succ_le_succ (positionsAll_le_placesAll items)
  | .object entries =>
    rw [positions, Node.places]
    exact Nat.succ_le_succ (positionsEntries_le_placesEntries entries)
  | .record tag rendering =>
    rw [positions, Node.places]
    split
    · exact Nat.le_add_left ..
    next hlimit =>
      have hrendering := positionsRendering_le (replaced + 1) rendering (Nat.succ_pos _)
        (Nat.not_le.1 hlimit)
      exact Nat.succ_le_succ hrendering
  | .null | .bool _ | .int _ | .uint _ | .float _ | .string _ | .set _ | .timestamp _
  | .duration _ | .bytes _ | .foreign _ _ => simp [positions, Node.places]

theorem positionsRendering_le (replaced : Nat) (rendering : Option Node) (hpos : 0 < replaced)
    (hlimit : replaced ≤ Encoder.chainLimit) :
    positionsRendering replaced rendering ≤ Node.placesRendering rendering := by
  match rendering with
  | some n =>
    rw [positionsRendering, Node.placesRendering]
    exact positions_le_places replaced n
  | none =>
    rw [positionsRendering, Node.placesRendering]
    omega

theorem positionsAll_le_placesAll (items : List Node) :
    positionsAll items ≤ Node.placesAll items := by
  match items with
  | [] => exact Nat.le_refl 0
  | v :: rest => exact Nat.add_le_add (positions_le_places 0 v) (positionsAll_le_placesAll rest)

theorem positionsEntries_le_placesEntries (entries : List (Key × Node)) :
    positionsEntries entries ≤ Node.placesEntries entries := by
  match entries with
  | [] => exact Nat.le_refl 0
  | (_, v) :: rest =>
    exact Nat.add_le_add (positions_le_places 0 v) (positionsEntries_le_placesEntries rest)

end

/-- **When as many parts were looked at as a node has places, none waits**, and all that
there is was found. -/
theorem run_of_places {visits : Nat} (hvisits : v.places ≤ visits) :
    (Search.start v).run encodes visits = ⟨[], report encodes v⟩ := by
  rw [report, run_start (Nat.le_trans (positions_le_places 0 v) hvisits),
    run_start (Nat.le_refl _)]

/-! ## Records that render to themselves -/

/-- So many labels of a record, one behind the other. -/
def labels (tag : RecordTag) (count : Nat) : String :=
  String.join (List.replicate count ("(" ++ tag.label ++ ")"))

theorem recordPath_labels (path : String) (tag : RecordTag) (count : Nat) :
    recordPath (path ++ labels tag count) tag = path ++ labels tag (count + 1) := by
  simp only [recordPath, labels, List.replicate_succ', String.join_append, String.join_cons,
    String.join_nil, String.append_empty, String.append_assoc]

/-- **A record that renders to itself, so many times replaced**: its labels join the
path. -/
def Part.unending (tag : RecordTag) (path : String) (replaced : Nat) : Part :=
  ⟨.record tag none, path ++ labels tag replaced, replaced⟩

variable {replaced : Nat}

theorem look_unending (hfails : encodes (.record tag none) = false) :
    (Part.unending tag path replaced).look encodes =
      if Encoder.chainLimit ≤ replaced then ([(path ++ labels tag replaced, .record tag none)], [])
      else ([], [.unending tag path (replaced + 1)]) := by
  rw [look_of_fails hfails, Part.unending, Part.unending, ← recordPath_labels]
  rfl

/-- **The search comes to such a record once for each label up to the limit**, and to
nothing else. -/
theorem reaches_unending_iff (hfails : encodes (.record tag none) = false) {u : Part} :
    Reaches encodes (.unending tag path 0) u ↔
      ∃ replaced ≤ Encoder.chainLimit, u = .unending tag path replaced := by
  constructor
  · intro h
    induction h with
    | self => exact ⟨0, Nat.zero_le _, rfl⟩
    | inside _ hu ih =>
      obtain ⟨replaced, -, rfl⟩ := ih
      rw [look_unending hfails] at hu
      split at hu
      next => cases hu
      next hlimit => exact ⟨replaced + 1, Nat.not_le.1 hlimit, List.mem_singleton.1 hu⟩
  · rintro ⟨replaced, hlimit, rfl⟩
    induction replaced with
    | zero => exact .self
    | succ replaced ih =>
      refine (ih (Nat.le_of_succ_le hlimit)).inside ?_
      rw [look_unending hfails, if_neg (Nat.not_le.2 hlimit)]
      exact List.mem_singleton.2 rfl

/-- **A record that renders to itself is found at the limit**: its last part has the only
finding. -/
theorem mem_look_unending_iff (hfails : encodes (.record tag none) = false)
    {finding : String × Node} :
    (∃ u, Reaches encodes (.unending tag path 0) u ∧ finding ∈ (u.look encodes).1) ↔
      finding = (path ++ labels tag Encoder.chainLimit, .record tag none) := by
  constructor
  · rintro ⟨u, hu, hfinding⟩
    obtain ⟨replaced, hlimit, rfl⟩ := (reaches_unending_iff hfails).1 hu
    rw [look_unending hfails] at hfinding
    split at hfinding
    next hlast =>
      obtain rfl := Nat.le_antisymm hlimit hlast
      exact List.mem_singleton.1 hfinding
    next => cases hfinding
  · rintro rfl
    refine ⟨_, (reaches_unending_iff hfails).2 ⟨_, Nat.le_refl _, rfl⟩, ?_⟩
    rw [look_unending hfails, if_pos (Nat.le_refl _)]
    exact List.mem_singleton.2 rfl

/-- A finding whose path no other has is in the report with its own value. -/
theorem mem_report_of_alone {finding : String × Node} {u : Part}
    (hu : Reaches encodes (.root v) u) (hfinding : finding ∈ (u.look encodes).1)
    (halone : ∀ w, Reaches encodes (.root v) w → ∀ value,
      (finding.1, value) ∈ (w.look encodes).1 → value = finding.2) :
    finding ∈ report encodes v := by
  obtain ⟨value, hvalue⟩ := has_report_iff.2 ⟨u, hu, finding.2, hfinding⟩
  obtain ⟨w, hw, hlook⟩ := exists_of_mem_report hvalue
  rw [halone w hw value hlook] at hvalue
  exact hvalue

/-! ## All of it ends -/

/-- **Encoding and diagnosis end under the stock encoders.** Encoding a node returns from
its height on, in no more calls than the node allows whatever the budget; so does every
attempt that the search makes. When as many parts were looked at as the node has places,
none waits. Where the search comes to a record that renders to itself, with no record in
front of it, it looks at it once for each label up to the limit and goes no further; the
only finding is the record under its path with `chainLimit` labels. That path is in the
report, and under it the record, if no other finding has the path. -/
theorem stock_ends (e : Encoder) (he : e.Stock) (v : Node) (budget : Nat)
    (hbudget : v.height ≤ budget) :
    (e.toJson budget v).isSome ∧
    (∀ budget', e.calls budget' 0 v ≤ v.callsAtMost) ∧
    (∀ u, Reaches (e.accepts budget) (.root v) u → (e.toJson budget u.node).isSome) ∧
    (∀ visits, v.places ≤ visits →
      (Search.start v).run (e.accepts budget) visits = ⟨[], e.diagnose budget v⟩) ∧
    ∀ tag path, Reaches (e.accepts budget) (.root v) ⟨.record tag none, path, 0⟩ →
      (∀ u, Reaches (e.accepts budget) ⟨.record tag none, path, 0⟩ u ↔
        ∃ replaced ≤ Encoder.chainLimit, u = .unending tag path replaced) ∧
      (∀ finding, (∃ u, Reaches (e.accepts budget) ⟨.record tag none, path, 0⟩ u ∧
          finding ∈ (u.look (e.accepts budget)).1) ↔
        finding = (path ++ labels tag Encoder.chainLimit, .record tag none)) ∧
      (e.diagnose budget v).Has (path ++ labels tag Encoder.chainLimit) ∧
      ((∀ u, Reaches (e.accepts budget) (.root v) u → ∀ value,
          (path ++ labels tag Encoder.chainLimit, value) ∈ (u.look (e.accepts budget)).1 →
            value = .record tag none) →
        (path ++ labels tag Encoder.chainLimit, .record tag none) ∈ e.diagnose budget v) := by
  refine ⟨he.isSome_toJson hbudget, fun budget' => he.calls_le budget' 0 v,
    fun u hu => he.isSome_toJson (Nat.le_trans hu.height_le hbudget),
    fun visits hvisits => run_of_places hvisits, fun tag path hreach => ?_⟩
  have hfails : e.accepts budget (.record tag none) = false := Bool.eq_false_iff.2 fun h =>
    he.not_encodes_unending tag ⟨budget, accepts_iff.1 h⟩
  -- without a label the path is as it was
  have hself : (⟨.record tag none, path, 0⟩ : Part) = .unending tag path 0 := by
    simp [Part.unending, labels]
  rw [hself] at hreach ⊢
  obtain ⟨last, hlast, hfinding⟩ := (mem_look_unending_iff hfails).2
    (Eq.refl (path ++ labels tag Encoder.chainLimit, Node.record tag none))
  exact ⟨fun u => reaches_unending_iff hfails, fun finding => mem_look_unending_iff hfails,
    has_report_iff.2 ⟨last, hreach.trans hlast, _, hfinding⟩,
    mem_report_of_alone (hreach.trans hlast) hfinding⟩

/-- A list of a record that renders to itself. -/
def unendingItem : Node := .array [.record ⟨"Loop", none, 0⟩ none]

/-- The list is encoded in at most thirty-four calls, and the record is in the report. -/
theorem stock_ends_unendingItem :
    unendingItem.height ≤ 34 ∧ Encoder.extended.calls 34 0 unendingItem ≤ 34 ∧
      ("$[0]" ++ labels ⟨"Loop", none, 0⟩ Encoder.chainLimit, .record ⟨"Loop", none, 0⟩ none) ∈
        Encoder.extended.diagnose 34 unendingItem := by
  have hheight : unendingItem.height ≤ 34 := by decide
  obtain ⟨-, hcalls, -, -, hrecords⟩ :=
    stock_ends Encoder.extended .extended unendingItem 34 hheight
  have hinside : (Part.root unendingItem).look (Encoder.extended.accepts 34) =
      ([], [⟨.record ⟨"Loop", none, 0⟩ none, "$[0]", 0⟩]) := rfl
  have hreach : Reaches (Encoder.extended.accepts 34) (.root unendingItem)
      ⟨.record ⟨"Loop", none, 0⟩ none, "$[0]", 0⟩ :=
    Reaches.self.inside (by rw [hinside]; exact List.mem_singleton.2 rfl)
  obtain ⟨-, honly, -, hmem⟩ := hrecords _ _ hreach
  refine ⟨hheight, hcalls 34, hmem fun u hu value hvalue => ?_⟩
  rcases hu.cases_head with rfl | ⟨w, hw, hu⟩
  · rw [hinside] at hvalue
    cases hvalue
  · rw [hinside] at hw
    obtain rfl := List.mem_singleton.1 hw
    exact (Prod.mk.inj ((honly _).1 ⟨u, hu, hvalue⟩)).2

/-- So many records of one type, each rendering to the next, around a node. -/
def wrapped (tag : RecordTag) : Nat → Node → Node
  | 0, n => n
  | k + 1, n => .record tag (some (wrapped tag k n))

/-- A record that renders to itself under `b.a`, and as many records as the limit allows
around a set under `a` in what is under `b`. -/
def overtaken : Node :=
  .object [(.string "b.a", .record ⟨"L", none, 0⟩ none),
    (.string "b", .object [(.string "a", wrapped ⟨"L", none, 0⟩ Encoder.chainLimit (.set []))])]

set_option maxRecDepth 2000 in
/-- **A dot in a key loses a record that renders to itself**: the search comes to it, but
the set is found later, under the same path, and the report has the set only. -/
theorem unending_lost :
    overtaken.height ≤ 36 ∧
      Reaches (Encoder.strict.accepts 36) (.root overtaken)
        ⟨.record ⟨"L", none, 0⟩ none, "$.b.a", 0⟩ ∧
      Encoder.strict.diagnose 36 overtaken =
        [("$.b.a" ++ labels ⟨"L", none, 0⟩ Encoder.chainLimit, .set [])] := by
  refine ⟨by decide, Reaches.self.inside (List.mem_cons_self ..), rfl⟩

end Diagnosis

end DocStore
