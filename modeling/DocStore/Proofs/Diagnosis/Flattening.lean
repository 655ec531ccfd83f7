import DocStore.Proofs.Diagnosis.Routes
/-!
# Records are transparent

A node is flattened by putting what each record renders to in the place of the record,
but not inside sets. Where no row of records is longer than a search may replace, the
faults of the flat node are those of the node, each at its place: the way to it goes
through the same elements, values and keys, and through no rendering
(`records_transparent`).
-/

namespace DocStore

namespace Node

mutual

/-- **A node without its records**: each is replaced by what it renders to, in elements,
in values, and in what records render to. Sets and keys are left as they are. -/
def flat : Node → Node
  | .array items => .array (flatItems items)
  | .object entries => .object (flatEntries entries)
  | .record tag rendering => flatRendering tag rendering
  | n => n

/-- What a record renders to, flattened; one that renders to itself stays. -/
def flatRendering (tag : RecordTag) : Option Node → Node
  | some n => flat n
  | none => .record tag none

/-- Elements flattened one by one. -/
def flatItems : List Node → List Node
  | [] => []
  | v :: rest => flat v :: flatItems rest

/-- Values flattened one by one, under their keys. -/
def flatEntries : List (Key × Node) → List (Key × Node)
  | [] => []
  | (key, v) :: rest => (key, flat v) :: flatEntries rest

end

mutual

/-- **No more than `chainLimit` records render directly one into the next**, where
`replaced` records are in front already. -/
def ShortRows (replaced : Nat) : Node → Prop
  | .array items => ShortRowsAll items
  | .object entries => ShortRowsEntries entries
  | .record _ rendering =>
    replaced < Encoder.chainLimit ∧ ShortRowsRendering (replaced + 1) rendering
  | _ => True

/-- A record that renders to itself has no end of records behind it. -/
def ShortRowsRendering (replaced : Nat) : Option Node → Prop
  | some n => ShortRows replaced n
  | none => False

/-- The rows in each element are short. -/
def ShortRowsAll : List Node → Prop
  | [] => True
  | v :: rest => ShortRows 0 v ∧ ShortRowsAll rest

/-- The rows in each value are short. -/
def ShortRowsEntries : List (Key × Node) → Prop
  | [] => True
  | (_, v) :: rest => ShortRows 0 v ∧ ShortRowsEntries rest

end

/-! ## Flattening makes no node higher -/

mutual

theorem height_flat_le (n : Node) : n.flat.height ≤ n.height := by
  match n with
  | .array items =>
    rw [flat, height, height]
    exact Nat.succ_le_succ (heightAll_flatItems_le items)
  | .object entries =>
    rw [flat, height, height]
    exact Nat.succ_le_succ (heightEntries_flatEntries_le entries)
  | .record tag (some n) => exact Nat.le_succ_of_le (height_flat_le n)
  | .record tag none => exact Nat.le_refl _
  | .null | .bool _ | .int _ | .uint _ | .float _ | .string _ | .set _ | .timestamp _
  | .duration _ | .bytes _ | .foreign _ _ => exact Nat.le_refl _

theorem heightAll_flatItems_le (items : List Node) :
    heightAll (flatItems items) ≤ heightAll items := by
  match items with
  | [] => exact Nat.le_refl 0
  | v :: rest => exact max_le_max (height_flat_le v) (heightAll_flatItems_le rest)

theorem heightEntries_flatEntries_le (entries : List (Key × Node)) :
    heightEntries (flatEntries entries) ≤ heightEntries entries := by
  match entries with
  | [] => exact Nat.le_refl 0
  | (_, v) :: rest => exact max_le_max (height_flat_le v) (heightEntries_flatEntries_le rest)

end

end Node

namespace Diagnosis

variable {encodes : Node → Bool}

/-! ## Faults of the flat node -/

/-- A step to what a record renders to. -/
def Step.isRendering : Step → Bool
  | .rendering _ => true
  | _ => false

/-- **A way without the renderings on it.** -/
def bare (route : List Step) : List Step := route.filter fun step => !step.isRendering

/-- The fault at the place where it is without renderings. -/
def Located.bare (f : Located) : Located := ⟨Diagnosis.bare f.route, f.value⟩

theorem map_bare_behind {step : Step} (h : step.isRendering = false) (faults : List Located) :
    (faults.map (Located.behind step)).map Located.bare =
      (faults.map Located.bare).map (Located.behind step) := by
  rw [List.map_map, List.map_map]
  refine List.map_congr_left fun f _ => ?_
  simp [Located.bare, Located.behind, bare, h]

theorem map_bare_behind_rendering (tag : RecordTag) (faults : List Located) :
    (faults.map (Located.behind (.rendering tag))).map Located.bare = faults.map Located.bare := by
  rw [List.map_map]
  exact List.map_congr_left fun f _ => rfl

theorem map_bare_faultAt (leaf : Node) :
    (faultAt encodes leaf).map Located.bare = faultAt encodes leaf := by
  rw [faultAt]
  split <;> rfl

mutual

/-- **The faults of the flat node are those of the node**, in the same order, without the
renderings on their ways. -/
theorem faultsIn_flat (replaced : Nat) (n : Node) (h : n.ShortRows replaced) :
    faultsIn encodes 0 n.flat = (faultsIn encodes replaced n).map Located.bare := by
  match n with
  | .array items => exact faultsInItems_flat 0 items h
  | .object entries => exact faultsInEntries_flat 0 [] entries h
  | .record tag (some n) =>
    rw [faultsIn_record h.1, map_bare_behind_rendering]
    exact faultsIn_flat (replaced + 1) n h.2
  | .record tag none => exact absurd h.2 id
  | .null | .bool _ | .int _ | .uint _ | .float _ | .string _ | .set _ | .timestamp _
  | .duration _ | .bytes _ | .foreign _ _ => exact (map_bare_faultAt _).symm

theorem faultsInItems_flat (index : Nat) (items : List Node) (h : Node.ShortRowsAll items) :
    faultsInItems encodes index (Node.flatItems items) =
      (faultsInItems encodes index items).map Located.bare := by
  match items with
  | [] => rfl
  | v :: rest =>
    rw [Node.flatItems, faultsInItems, faultsInItems, List.map_append, map_bare_behind rfl,
      ← faultsIn_flat 0 v h.1, faultsInItems_flat (index + 1) rest h.2]

theorem faultsInEntries_flat (index : Nat) (taken : List String) (entries : List (Key × Node))
    (h : Node.ShortRowsEntries entries) :
    faultsInEntries encodes index taken (Node.flatEntries entries) =
      (faultsInEntries encodes index taken entries).map Located.bare := by
  match entries with
  | [] => rfl
  | (key, v) :: rest =>
    rw [Node.flatEntries]
    rcases good_or_bad taken key with ⟨name, hname, hfree⟩ | hbad
    · rw [faultsInEntries_of_good hname hfree, faultsInEntries_of_good hname hfree,
        List.map_append, map_bare_behind rfl, ← faultsIn_flat 0 v h.1,
        faultsInEntries_flat (index + 1) (name :: taken) rest h.2]
    · rw [faultsInEntries_of_bad hbad, faultsInEntries_of_bad hbad, List.map_cons,
        faultsInEntries_flat (index + 1) taken rest h.2]
      rfl

end

/-! ## The diagnosis -/

/-- **What a diagnosis enters into its report**, in order. -/
def recorded (e : Encoder) (budget : Nat) (v : Node) : List (String × Node) :=
  entered (e.accepts budget) (positions 0 v) [.root v]

variable {e : Encoder} {budget : Nat} {v : Node}

theorem diagnose_eq_recorded (e : Encoder) (budget : Nat) (v : Node) :
    e.diagnose budget v = Report.insertAll (recorded e budget v) [] :=
  found_run (positions 0 v) [.root v] []

/-- **The report is what is entered**, if the paths differ. -/
theorem diagnose_of_nodup (h : ((recorded e budget v).map (·.1)).Nodup) :
    e.diagnose budget v = recorded e budget v := by
  rw [diagnose_eq_recorded, Report.insertAll_of_nodup (by rwa [List.nil_append]), List.nil_append]

/-- A diagnosis enters the faults in a node, each once. -/
theorem recorded_perm (he : e.Stock) (hbudget : v.height ≤ budget) :
    (recorded e budget v).Perm ((faultsIn (e.accepts budget) 0 v).map (Located.entry "$")) := by
  have hlow : ∀ p ∈ [Part.root v], p.node.height ≤ budget := by
    intro p hp
    obtain rfl := List.mem_singleton.1 hp
    exact hbudget
  have hperm := entered_perm he (Nat.le_of_eq (weights_root v)) hlow
  rwa [List.flatMap_singleton] at hperm

/-- **Records are transparent to the diagnosis.** Let no more than `chainLimit` records
render directly one into the next. Then there are faults, each at a place of its own, such
that the diagnosis of the node enters each of them once, under the path of the way to it,
and the diagnosis of the flat node enters each of them once, under the path of that way
without the renderings. The ways lead to the offending values in either node. What is
entered is what the reports are made of: either has all of it if the paths there differ.
No attempt to encode runs out of budget. -/
theorem records_transparent (e : Encoder) (he : e.Stock) (v : Node) (hrows : v.ShortRows 0)
    (budget : Nat) (hbudget : v.height ≤ budget) :
    (∀ q, Reaches (e.accepts budget) (.root v) q → (e.toJson budget q.node).isSome) ∧
    (∀ q, Reaches (e.accepts budget) (.root v.flat) q → (e.toJson budget q.node).isSome) ∧
    (∀ w, e.diagnose budget w = Report.insertAll (recorded e budget w) [] ∧
      (((recorded e budget w).map (·.1)).Nodup → e.diagnose budget w = recorded e budget w)) ∧
    ∃ faults : List Located,
      (faults.map fun f => bare f.route).Nodup ∧
      (recorded e budget v).Perm (faults.map fun f => ("$" ++ routeText f.route, f.value)) ∧
      (recorded e budget v.flat).Perm
        (faults.map fun f => ("$" ++ routeText (bare f.route), f.value)) ∧
      ∀ f ∈ faults, Leads v f.route f.value ∧ Leads v.flat (bare f.route) f.value := by
  have hflat : v.flat.height ≤ budget := Nat.le_trans v.height_flat_le hbudget
  have hsame : faultsIn (e.accepts budget) 0 v.flat =
      (faultsIn (e.accepts budget) 0 v).map Located.bare := faultsIn_flat 0 v hrows
  refine ⟨fun q hq => he.isSome_toJson (Nat.le_trans hq.height_le hbudget),
    fun q hq => he.isSome_toJson (Nat.le_trans hq.height_le hflat),
    fun w => ⟨diagnose_eq_recorded e budget w, diagnose_of_nodup⟩,
    faultsIn (e.accepts budget) 0 v, ?_, recorded_perm he hbudget, ?_, fun f hf => ⟨?_, ?_⟩⟩
  · have hnodup : ((faultsIn (e.accepts budget) 0 v.flat).map (·.route)).Nodup :=
      nodup_faultsIn 0 v.flat
    rwa [hsame, List.map_map] at hnodup
  · have hperm := recorded_perm he hflat
    rwa [hsame, List.map_map] at hperm
  · exact leads_of_mem_faultsIn 0 v hf
  · have hmem : f.bare ∈ faultsIn (e.accepts budget) 0 v.flat := by
      rw [hsame]
      exact List.mem_map_of_mem hf
    exact leads_of_mem_faultsIn 0 v.flat hmem

/-- Two records in a row around a list of a set, beside a record around bytes. -/
def behindRecords : Node :=
  .object [(.string "a", inRecords 2 (.array [.set []])), (.int 3, inRecords 1 (.bytes []))]

/-- The labels of the records stand in front of the index and behind the key. -/
theorem records_transparent_behindRecords :
    behindRecords.ShortRows 0 ∧ behindRecords.height ≤ 6 ∧
      (recorded .strict 6 behindRecords).length = (recorded .strict 6 behindRecords.flat).length ∧
      Encoder.strict.diagnose 6 behindRecords =
        [("$.3(R: 0)", .bytes []), ("$.a(R: 1)(R: 0)[0]", .set [])] ∧
      Encoder.strict.diagnose 6 behindRecords.flat =
        [("$.3", .bytes []), ("$.a[0]", .set [])] := by
  have hrows : behindRecords.ShortRows 0 := by
    simp [behindRecords, inRecords, Node.ShortRows, Node.ShortRowsEntries,
      Node.ShortRowsRendering, Node.ShortRowsAll, Encoder.chainLimit]
  have hheight : behindRecords.height ≤ 6 := by decide
  obtain ⟨-, -, -, faults, -, hfull, hbare, -⟩ :=
    records_transparent .strict .strict behindRecords hrows 6 hheight
  refine ⟨hrows, hheight, ?_, rfl, rfl⟩
  rw [hfull.length_eq, hbare.length_eq, List.length_map, List.length_map]

end Diagnosis

end DocStore
