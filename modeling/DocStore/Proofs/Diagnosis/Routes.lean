import DocStore.Proofs.Diagnosis.Exhaustive
import DocStore.Proofs.Diagnosis.Paths
/-!
# Faults and the ways to them

A path is a text, and two places of a node may have the same one. A way is a list of
steps, and no two faults have the same (`nodup_faultsIn`). Here the faults in a node are
listed with the ways to them, in the order of its text. Under a stock encoder a search
enters each of them once, under the path that its way spells (`entered_perm`).
-/

namespace DocStore

namespace Diagnosis

/-! ## Ways -/

/-- **A step into a node**: to an element, to a value, to what a record renders to, or to
a key. Elements and entries are counted from zero. -/
inductive Step where
  | item (index : Nat)
  | value (index : Nat) (key : Key)
  | rendering (tag : RecordTag)
  | key (index : Nat) (key : Key)

namespace Step

/-- What a step adds to a path. -/
def text : Step → String
  | .item index => "[" ++ index.repr ++ "]"
  | .value _ k => "." ++ k.text
  | .rendering tag => "(" ++ tag.label ++ ")"
  | .key _ k => "<key: " ++ k.text ++ ">"

/-- Which element or entry a step goes to. -/
def index : Step → Nat
  | .item index | .value index _ | .key index _ => index
  | .rendering _ => 0

end Step

/-- **What a way adds to a path.** -/
def routeText (route : List Step) : String := String.join (route.map Step.text)

theorem routeText_cons (path : String) (step : Step) (route : List Step) :
    path ++ routeText (step :: route) = path ++ step.text ++ routeText route := by
  rw [routeText, List.map_cons, String.join_cons, String.append_assoc]
  rfl

/-- **A way leads from a node to a value.** -/
inductive Leads : Node → List Step → Node → Prop
  | here (n : Node) : Leads n [] n
  | item {items : List Node} {i : Nat} {v w : Node} {route : List Step} (hv : items[i]? = some v)
      (h : Leads v route w) : Leads (.array items) (.item i :: route) w
  | value {entries : List (Key × Node)} {i : Nat} {key : Key} {v w : Node} {route : List Step}
      (hv : entries[i]? = some (key, v)) (h : Leads v route w) :
      Leads (.object entries) (.value i key :: route) w
  | rendering {tag : RecordTag} {rendering : Option Node} {w : Node} {route : List Step}
      (h : Leads (Node.rendered tag rendering) route w) :
      Leads (.record tag rendering) (.rendering tag :: route) w
  | key {entries : List (Key × Node)} {i : Nat} {key : Key} {v : Node}
      (hv : entries[i]? = some (key, v)) : Leads (.object entries) [.key i key] key.toNode

/-! ## The faults in a node -/

/-- **A fault**: the way to it, and the offending value. -/
structure Located where
  route : List Step
  value : Node

namespace Located

/-- The fault as seen from one step further out. -/
def behind (step : Step) (f : Located) : Located := ⟨step :: f.route, f.value⟩

/-- The fault as a search enters it, seen from the given path. -/
def entry (path : String) (f : Located) : String × Node := (path ++ routeText f.route, f.value)

theorem entry_behind (path : String) (step : Step) (f : Located) :
    (f.behind step).entry path = f.entry (path ++ step.text) := by
  rw [entry, entry, behind, routeText_cons]

end Located

/-- A value that nothing lies in is a fault if it does not encode. -/
def faultAt (encodes : Node → Bool) (leaf : Node) : List Located :=
  if encodes leaf then [] else [⟨[], leaf⟩]

mutual

/-- **The faults in a node** that stands behind so many records in a row, in the order of
its text: keys without a name of their own, and what does not encode though nothing lies
in it, or no record may be replaced any more. -/
def faultsIn (encodes : Node → Bool) (replaced : Nat) : Node → List Located
  | .array items => faultsInItems encodes 0 items
  | .object entries => faultsInEntries encodes 0 [] entries
  | .record tag rendering =>
    if Encoder.chainLimit ≤ replaced then faultAt encodes (.record tag rendering)
    else
      (faultsInRendering encodes tag (replaced + 1) rendering).map (Located.behind (.rendering tag))
  | leaf => faultAt encodes leaf

/-- The faults in what a record renders to. -/
def faultsInRendering (encodes : Node → Bool) (tag : RecordTag) (replaced : Nat) :
    Option Node → List Located
  | some n => faultsIn encodes replaced n
  | none => (faultAt encodes (.record tag none)).map fun f =>
    ⟨List.replicate (Encoder.chainLimit - replaced) (.rendering tag), f.value⟩

/-- The faults in elements, from the given index on. -/
def faultsInItems (encodes : Node → Bool) (index : Nat) : List Node → List Located
  | [] => []
  | v :: rest =>
    (faultsIn encodes 0 v).map (Located.behind (.item index)) ++
      faultsInItems encodes (index + 1) rest

/-- The faults in entries, from the given index on, with some names taken. -/
def faultsInEntries (encodes : Node → Bool) (index : Nat) (taken : List String) :
    List (Key × Node) → List Located
  | [] => []
  | (key, v) :: rest =>
    match key.name with
    | .ok name =>
      if name ∈ taken then
        ⟨[.key index key], key.toNode⟩ :: faultsInEntries encodes (index + 1) taken rest
      else
        (faultsIn encodes 0 v).map (Located.behind (.value index key)) ++
          faultsInEntries encodes (index + 1) (name :: taken) rest
    | .error _ => ⟨[.key index key], key.toNode⟩ :: faultsInEntries encodes (index + 1) taken rest

end

variable {encodes : Node → Bool} {e : Encoder} {budget : Nat} {p : Part} {v : Node}

theorem faultsInEntries_of_good {taken : List String} {key : Key} {name : String}
    (hname : key.name = .ok name) (htaken : name ∉ taken) (index : Nat) (v : Node)
    (rest : List (Key × Node)) :
    faultsInEntries encodes index taken ((key, v) :: rest) =
      (faultsIn encodes 0 v).map (Located.behind (.value index key)) ++
        faultsInEntries encodes (index + 1) (name :: taken) rest := by
  rw [faultsInEntries, hname]
  dsimp only
  rw [if_neg htaken]

theorem faultsInEntries_of_bad {taken : List String} {key : Key}
    (hbad : ∀ name, key.name = .ok name → name ∈ taken) (index : Nat) (v : Node)
    (rest : List (Key × Node)) :
    faultsInEntries encodes index taken ((key, v) :: rest) =
      ⟨[.key index key], key.toNode⟩ :: faultsInEntries encodes (index + 1) taken rest := by
  rw [faultsInEntries]
  cases hname : key.name with
  | ok name => exact if_pos (hbad name hname)
  | error _ => rfl

/-- A record that may be replaced has the faults of what it renders to. -/
theorem faultsIn_record {tag : RecordTag} {rendering : Option Node} {replaced : Nat}
    (h : replaced < Encoder.chainLimit) :
    faultsIn encodes replaced (.record tag rendering) =
      (faultsIn encodes (replaced + 1) (Node.rendered tag rendering)).map
        (Located.behind (.rendering tag)) := by
  rw [faultsIn, if_neg (Nat.not_le.2 h)]
  refine congrArg _ ?_
  cases rendering with
  | some n => rw [faultsInRendering, Node.rendered, Option.getD_some]
  | none =>
    rw [faultsInRendering, Node.rendered, Option.getD_none, faultsIn]
    split
    next hlimit =>
      -- at the limit there is no label left
      rw [Nat.sub_eq_zero_of_le hlimit, faultAt]
      split <;> rfl
    next hlimit =>
      obtain ⟨left, hleft⟩ : ∃ left, Encoder.chainLimit - (replaced + 1) = left + 1 :=
        ⟨Encoder.chainLimit - (replaced + 1) - 1, by omega⟩
      have hnext : Encoder.chainLimit - (replaced + 1 + 1) = left := by omega
      rw [faultsInRendering, hleft, hnext, List.map_map]
      rfl

/-! ## No two have the same way -/

/-- A fault behind a step to the given element or entry, or to a later one. -/
def Located.StartsFrom (index : Nat) (f : Located) : Prop :=
  ∃ step route, f.route = step :: route ∧ index ≤ step.index

theorem Located.StartsFrom.mono {index : Nat} {f : Located} (h : f.StartsFrom (index + 1)) :
    f.StartsFrom index := by
  obtain ⟨step, route, hroute, hle⟩ := h
  exact ⟨step, route, hroute, Nat.le_of_succ_le hle⟩

theorem nodup_map_behind (step : Step) {faults : List Located}
    (h : (faults.map (·.route)).Nodup) :
    ((faults.map (Located.behind step)).map (·.route)).Nodup := by
  have hmap : (faults.map (Located.behind step)).map (·.route) =
      (faults.map (·.route)).map (step :: ·) := by
    simp [Located.behind]
  rw [hmap]
  exact h.map fun _ _ heq => (List.cons.inj heq).2

/-- Faults behind one step and faults behind later ones have different ways. -/
theorem nodup_behind_append (step : Step) {faults others : List Located}
    (h : (faults.map (·.route)).Nodup) (hothers : (others.map (·.route)).Nodup)
    (hlater : ∀ f ∈ others, f.StartsFrom (step.index + 1)) :
    ((faults.map (Located.behind step) ++ others).map (·.route)).Nodup ∧
      ∀ f ∈ faults.map (Located.behind step) ++ others, f.StartsFrom step.index := by
  refine ⟨?_, fun f hf => ?_⟩
  · rw [List.map_append, List.nodup_append]
    refine ⟨nodup_map_behind step h, hothers, fun route hroute route' hroute' heq => ?_⟩
    obtain ⟨f, hf, rfl⟩ := List.mem_map.1 hroute
    obtain ⟨g, -, rfl⟩ := List.mem_map.1 hf
    obtain ⟨f', hf', rfl⟩ := List.mem_map.1 hroute'
    obtain ⟨step', rest, hfirst, hle⟩ := hlater f' hf'
    -- one step cannot go to an element and to a later one
    obtain ⟨rfl, -⟩ := List.cons.inj (heq.trans hfirst)
    omega
  · rcases List.mem_append.1 hf with hf | hf
    · obtain ⟨g, -, rfl⟩ := List.mem_map.1 hf
      exact ⟨step, g.route, rfl, Nat.le_refl _⟩
    · exact (hlater f hf).mono

theorem nodup_faultAt (leaf : Node) : ((faultAt encodes leaf).map (·.route)).Nodup := by
  rw [faultAt]
  split <;> simp

mutual

/-- **No two faults in a node have the same way.** -/
theorem nodup_faultsIn (replaced : Nat) (n : Node) :
    ((faultsIn encodes replaced n).map (·.route)).Nodup := by
  match n with
  | .array items => exact (nodup_faultsInItems 0 items).1
  | .object entries => exact (nodup_faultsInEntries 0 [] entries).1
  | .record tag rendering =>
    rw [faultsIn]
    split
    · exact nodup_faultAt _
    · exact nodup_map_behind _ (nodup_faultsInRendering tag (replaced + 1) rendering)
  | .null | .bool _ | .int _ | .uint _ | .float _ | .string _ | .set _ | .timestamp _
  | .duration _ | .bytes _ | .foreign _ _ => exact nodup_faultAt _

theorem nodup_faultsInRendering (tag : RecordTag) (replaced : Nat) (rendering : Option Node) :
    ((faultsInRendering encodes tag replaced rendering).map (·.route)).Nodup := by
  match rendering with
  | some n => exact nodup_faultsIn replaced n
  | none =>
    rw [faultsInRendering, faultAt]
    split <;> simp

theorem nodup_faultsInItems (index : Nat) (items : List Node) :
    ((faultsInItems encodes index items).map (·.route)).Nodup ∧
      ∀ f ∈ faultsInItems encodes index items, f.StartsFrom index := by
  match items with
  | [] => exact ⟨List.nodup_nil, by simp [faultsInItems]⟩
  | v :: rest =>
    obtain ⟨hrest, hlater⟩ := nodup_faultsInItems (index + 1) rest
    rw [faultsInItems]
    exact nodup_behind_append _ (nodup_faultsIn 0 v) hrest hlater

theorem nodup_faultsInEntries (index : Nat) (taken : List String) (entries : List (Key × Node)) :
    ((faultsInEntries encodes index taken entries).map (·.route)).Nodup ∧
      ∀ f ∈ faultsInEntries encodes index taken entries, f.StartsFrom index := by
  match entries with
  | [] => exact ⟨List.nodup_nil, by simp [faultsInEntries]⟩
  | (key, v) :: rest =>
    rcases good_or_bad taken key with ⟨name, hname, hfree⟩ | hbad
    · obtain ⟨hrest, hlater⟩ := nodup_faultsInEntries (index + 1) (name :: taken) rest
      rw [faultsInEntries_of_good hname hfree]
      exact nodup_behind_append _ (nodup_faultsIn 0 v) hrest hlater
    · obtain ⟨hrest, hlater⟩ := nodup_faultsInEntries (index + 1) taken rest
      rw [faultsInEntries_of_bad hbad]
      have hkey : (([⟨[], key.toNode⟩] : List Located).map (·.route)).Nodup :=
        List.nodup_singleton _
      exact nodup_behind_append (.key index key) hkey hrest hlater

end

/-! ## The ways lead to the faults -/

theorem leads_of_mem_faultAt {leaf : Node} {f : Located} (h : f ∈ faultAt encodes leaf) :
    Leads leaf f.route f.value := by
  rw [faultAt] at h
  split at h
  · cases h
  · obtain rfl := List.mem_singleton.1 h
    exact .here leaf

/-- A record that renders to itself is at the end of any number of renderings. -/
theorem leads_replicate (tag : RecordTag) (count : Nat) :
    Leads (.record tag none) (List.replicate count (.rendering tag)) (.record tag none) := by
  induction count with
  | zero => exact .here _
  | succ count ih => exact .rendering ih

mutual

/-- **The way to a fault leads to the offending value.** -/
theorem leads_of_mem_faultsIn (replaced : Nat) (n : Node) {f : Located}
    (h : f ∈ faultsIn encodes replaced n) : Leads n f.route f.value := by
  match n with
  | .array items => exact leads_of_mem_faultsInItems [] items h
  | .object entries => exact leads_of_mem_faultsInEntries [] [] entries h
  | .record tag rendering =>
    rw [faultsIn] at h
    split at h
    · exact leads_of_mem_faultAt h
    · obtain ⟨g, hg, rfl⟩ := List.mem_map.1 h
      exact .rendering (leads_of_mem_faultsInRendering tag (replaced + 1) rendering hg)
  | .null | .bool _ | .int _ | .uint _ | .float _ | .string _ | .set _ | .timestamp _
  | .duration _ | .bytes _ | .foreign _ _ => exact leads_of_mem_faultAt h

theorem leads_of_mem_faultsInRendering (tag : RecordTag) (replaced : Nat) (rendering : Option Node)
    {f : Located} (h : f ∈ faultsInRendering encodes tag replaced rendering) :
    Leads (Node.rendered tag rendering) f.route f.value := by
  match rendering with
  | some n => exact leads_of_mem_faultsIn replaced n h
  | none =>
    obtain ⟨g, hg, rfl⟩ := List.mem_map.1 h
    rw [faultAt] at hg
    split at hg
    · cases hg
    · obtain rfl := List.mem_singleton.1 hg
      exact leads_replicate tag _

theorem leads_of_mem_faultsInItems (front items : List Node) {f : Located}
    (h : f ∈ faultsInItems encodes front.length items) :
    Leads (.array (front ++ items)) f.route f.value := by
  match items with
  | [] => cases h
  | v :: rest =>
    rw [faultsInItems] at h
    rcases List.mem_append.1 h with h | h
    · obtain ⟨g, hg, rfl⟩ := List.mem_map.1 h
      exact .item (by simp) (leads_of_mem_faultsIn 0 v hg)
    · -- the element joins those in front, whose number is the index
      rw [List.append_cons]
      exact leads_of_mem_faultsInItems (front ++ [v]) rest (by rwa [List.length_append])

theorem leads_of_mem_faultsInEntries (front : List (Key × Node)) (taken : List String)
    (entries : List (Key × Node)) {f : Located}
    (h : f ∈ faultsInEntries encodes front.length taken entries) :
    Leads (.object (front ++ entries)) f.route f.value := by
  match entries with
  | [] => cases h
  | (key, v) :: rest =>
    have hfirst : (front ++ (key, v) :: rest)[front.length]? = some (key, v) := by simp
    rcases good_or_bad taken key with ⟨name, hname, hfree⟩ | hbad
    · rw [faultsInEntries_of_good hname hfree] at h
      rcases List.mem_append.1 h with h | h
      · obtain ⟨g, hg, rfl⟩ := List.mem_map.1 h
        exact .value hfirst (leads_of_mem_faultsIn 0 v hg)
      · rw [List.append_cons]
        exact leads_of_mem_faultsInEntries (front ++ [(key, v)]) (name :: taken) rest
          (by rwa [List.length_append])
    · rw [faultsInEntries_of_bad hbad] at h
      rcases List.mem_cons.1 h with rfl | h
      · exact .key hfirst
      · rw [List.append_cons]
        exact leads_of_mem_faultsInEntries (front ++ [(key, v)]) taken rest
          (by rwa [List.length_append])

end

/-! ## One part of a search -/

/-- **The faults in a part**, as a search enters them. -/
def Part.faults (encodes : Node → Bool) (p : Part) : List (String × Node) :=
  (faultsIn encodes p.replaced p.node).map (Located.entry p.path)

theorem map_entry_behind (path : String) (step : Step) (faults : List Located) :
    (faults.map (Located.behind step)).map (Located.entry path) =
      faults.map (Located.entry (path ++ step.text)) := by
  rw [List.map_map]
  exact List.map_congr_left fun f _ => f.entry_behind path step

theorem map_entry_faultAt (path : String) (leaf : Node) :
    (faultAt encodes leaf).map (Located.entry path) =
      if encodes leaf then [] else [(path, leaf)] := by
  rw [faultAt]
  split
  · rfl
  · simp [Located.entry, routeText]

theorem faultsInItems_eq (path : String) (index : Nat) (items : List Node) :
    (faultsInItems encodes index items).map (Located.entry path) =
      (itemParts path index items).flatMap (Part.faults encodes) := by
  induction items generalizing index with
  | nil => rfl
  | cons v rest ih =>
    rw [faultsInItems, itemParts, List.map_append, map_entry_behind, ih, List.flatMap_cons,
      Part.faults, itemPath_eq]
    rfl

/-- The bad keys come in front of what lies in the values. -/
theorem faultsInEntries_perm (path : String) (index : Nat) (taken : List String)
    (entries : List (Key × Node)) :
    ((faultsInEntries encodes index taken entries).map (Located.entry path)).Perm
      ((entryParts path taken entries).1 ++
        (entryParts path taken entries).2.flatMap (Part.faults encodes)) := by
  induction entries generalizing index taken with
  | nil => exact .refl _
  | cons entry rest ih =>
    obtain ⟨key, v⟩ := entry
    rcases good_or_bad taken key with ⟨name, hname, hfree⟩ | hbad
    · rw [faultsInEntries_of_good hname hfree, entryParts_of_good hname hfree, List.map_append,
        map_entry_behind, List.flatMap_cons]
      have hfirst :
          (faultsIn encodes 0 v).map (Located.entry (path ++ Step.text (.value index key))) =
            Part.faults encodes ⟨v, valuePath path key, 0⟩ := by
        rw [Part.faults, valuePath_eq]
        rfl
      rw [hfirst]
      exact ((ih (index + 1) (name :: taken)).append_left _).trans (List.perm_append_comm_assoc ..)
    · rw [faultsInEntries_of_bad hbad, entryParts_of_bad hbad, List.map_cons, List.cons_append]
      have hfirst : Located.entry path ⟨[.key index key], key.toNode⟩ =
          (keyPath path key, key.toNode) := by
        simp [Located.entry, routeText, Step.text, keyPath_eq]
      rw [hfirst]
      exact (ih (index + 1) taken).cons _

/-- **The faults in a part are its own findings and the faults in what is inside it.** -/
theorem faults_perm_lookInside (encodes : Node → Bool) (p : Part) :
    (p.faults encodes).Perm
      ((p.lookInside encodes).1 ++ (p.lookInside encodes).2.flatMap (Part.faults encodes)) := by
  obtain ⟨node, path, replaced⟩ := p
  cases node with
  | array items => exact .of_eq (faultsInItems_eq path 0 items)
  | object entries => exact faultsInEntries_perm path 0 [] entries
  | record tag rendering =>
    by_cases hlimit : replaced < Encoder.chainLimit
    · refine .of_eq ?_
      rw [Part.faults, faultsIn_record hlimit, map_entry_behind]
      simp [Part.lookInside, hlimit, Part.faults, recordPath_eq, Step.text]
    · refine .of_eq ?_
      rw [Part.faults, faultsIn, if_pos (Nat.not_lt.1 hlimit), map_entry_faultAt]
      simp [Part.lookInside, hlimit]
  | _ => exact .of_eq (by simp [Part.faults, faultsIn, map_entry_faultAt, Part.lookInside])

/-- **What encodes has no faults in it**, under a stock encoder. -/
theorem faults_eq_nil (he : e.Stock) (hbudget : p.node.height ≤ budget)
    (h : e.accepts budget p.node = true) : p.faults (e.accepts budget) = [] := by
  -- by the weight: what a record renders to is as high as the record if it is the same
  induction hweight : p.weight using Nat.strongRecOn generalizing p with
  | ind weight ih =>
    subst hweight
    have hperm := faults_perm_lookInside (e.accepts budget) p
    obtain ⟨hnone, hall⟩ := encodes_inside he ⟨budget, accepts_iff.1 h⟩ h
    have hinside : (p.lookInside (e.accepts budget)).2.flatMap
        (Part.faults (e.accepts budget)) = [] := by
      refine List.flatMap_eq_nil_iff.2 fun u hu => ?_
      have hopened : u ∈ (p.look fun _ => false).2 := by
        rwa [look_never, ← lookInside_inside (e.accepts budget)]
      have hlow := Nat.le_trans (height_le_of_mem_look hopened) hbudget
      have hless : u.weight < p.weight :=
        Nat.lt_of_le_of_lt (weight_le_weights hu) (weights_lookInside_lt _ p)
      have haccepted := (encodes_iff_accepts (he.isSome_toJson hlow)).1 (hall u hu)
      exact ih u.weight hless hlow haccepted rfl
    rw [hnone, hinside] at hperm
    exact hperm.eq_nil

/-- **So a search finds in a part what the part has in it**, though it passes over what
encodes. -/
theorem faults_perm_look (he : e.Stock) (hbudget : p.node.height ≤ budget) :
    (p.faults (e.accepts budget)).Perm
      ((p.look (e.accepts budget)).1 ++
        (p.look (e.accepts budget)).2.flatMap (Part.faults (e.accepts budget))) := by
  cases h : e.accepts budget p.node with
  | true => rw [look_of_encodes h, faults_eq_nil he hbudget h]; exact .refl _
  | false =>
    rw [look_of_fails h, ← lookInside_of_fails h]
    exact faults_perm_lookInside _ p

/-! ## A whole search -/

/-- **What a search enters into its report**, visit by visit, with nothing overwritten. -/
def entered (encodes : Node → Bool) : (visits : Nat) → (waiting : List Part) → List (String × Node)
  | visits + 1, p :: waiting =>
    (p.look encodes).1 ++ entered encodes visits (waiting ++ (p.look encodes).2)
  | _, _ => []

/-- The report is made of what is entered. -/
theorem found_run (visits : Nat) (waiting : List Part) (found : Report) :
    (Search.run encodes ⟨waiting, found⟩ visits).found =
      Report.insertAll (entered encodes visits waiting) found := by
  induction visits generalizing waiting found with
  | zero => rfl
  | succ visits ih =>
    cases waiting with
    | nil => rw [run_eq_runBy, runBy_nil]; rfl
    | cons p waiting =>
      rw [Search.run, visit_cons, ih, entered, Report.insertAll_append]

/-- **A search that may visit all positions enters each fault in what waits once.** -/
theorem entered_perm (he : e.Stock) {visits : Nat} {waiting : List Part}
    (hvisits : weights waiting ≤ visits) (hlow : ∀ p ∈ waiting, p.node.height ≤ budget) :
    (entered (e.accepts budget) visits waiting).Perm
      (waiting.flatMap (Part.faults (e.accepts budget))) := by
  induction visits generalizing waiting with
  | zero =>
    cases waiting with
    | nil => exact .refl _
    | cons p waiting =>
      have hpos := weight_pos p
      rw [weights] at hvisits
      omega
  | succ visits ih =>
    cases waiting with
    | nil => exact .refl _
    | cons p waiting =>
      obtain ⟨hp, hwaiting⟩ := List.forall_mem_cons.1 hlow
      have hless : weights (p.look (e.accepts budget)).2 < p.weight := weights_look_lt p
      have hfewer : weights (waiting ++ (p.look (e.accepts budget)).2) ≤ visits := by
        rw [weights] at hvisits
        rw [weights_append]
        omega
      have hnext := ih hfewer fun u hu => (List.mem_append.1 hu).elim (hwaiting u) fun hu =>
        Nat.le_trans (height_le_of_mem_look hu) hp
      rw [List.flatMap_append] at hnext
      rw [entered, List.flatMap_cons]
      -- what is inside the part waits behind the others
      refine ((hnext.append_left _).trans ?_).trans ((faults_perm_look he hp).symm.append_right _)
      rw [List.append_assoc]
      exact List.perm_append_comm.append_left _

end Diagnosis

end DocStore
