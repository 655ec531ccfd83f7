import DocStore.Proofs.Diagnosis.Traversal
import DocStore.Proofs.Encoding.Budget
/-!
# Cutting out what was found

A node is pruned of a list of paths: the values under them become null, and the
entries whose keys have them are dropped. Pruning never harms what encodes. A
part that a search reaches encodes once it is pruned of all that the search
finds, even where paths of other parts are among them
(`encodes_prune_of_reaches`).
-/

namespace DocStore

/-- **What lies in a node** as it stands: reached through the elements of lists
and the values of objects. -/
inductive Node.Within (n : Node) : Node → Prop
  | self : Within n n
  | item {items : List Node} {v : Node} (h : Within n (.array items)) (hv : v ∈ items) :
      Within n v
  | value {entries : List (Key × Node)} {entry : Key × Node} (h : Within n (.object entries))
      (hentry : entry ∈ entries) : Within n entry.2

namespace Node.Within

variable {n m v : Node}

theorem trans (h : n.Within m) (h' : m.Within v) : n.Within v := by
  induction h' with
  | self => exact h
  | item _ hv ih => exact ih.item hv
  | value _ hentry ih => exact ih.value hentry

end Node.Within

namespace Diagnosis

mutual

/-- **A node without what lies under bad paths.** -/
def prune (bad : List String) (path : String) : Node → Node
  | .array items => if path ∈ bad then .null else .array (pruneItems bad path 0 items)
  | .object entries => if path ∈ bad then .null else .object (pruneEntries bad path entries)
  | n => if path ∈ bad then .null else n

/-- Elements pruned one by one, from the given index on. -/
def pruneItems (bad : List String) (path : String) (index : Nat) : List Node → List Node
  | [] => []
  | v :: rest =>
    prune bad (itemPath path index) v :: pruneItems bad path (index + 1) rest

/-- Entries without those under bad keys, the others pruned. -/
def pruneEntries (bad : List String) (path : String) : List (Key × Node) → List (Key × Node)
  | [] => []
  | (key, v) :: rest =>
    if keyPath path key ∈ bad then pruneEntries bad path rest
    else (key, prune bad (valuePath path key) v) :: pruneEntries bad path rest

end

/-! ## Without bad paths -/

mutual

theorem prune_nil (path : String) (n : Node) : prune [] path n = n := by
  match n with
  | .array items =>
    rw [prune, if_neg List.not_mem_nil, pruneItems_nil path 0 items]
  | .object entries =>
    rw [prune, if_neg List.not_mem_nil, pruneEntries_nil path entries]
  | .null | .bool _ | .int _ | .uint _ | .float _ | .string _ | .set _ | .timestamp _
  | .duration _ | .bytes _ | .record _ _ | .foreign _ _ => simp [prune]

theorem pruneItems_nil (path : String) (index : Nat) (items : List Node) :
    pruneItems [] path index items = items := by
  match items with
  | [] => rfl
  | v :: rest => rw [pruneItems, prune_nil, pruneItems_nil path (index + 1) rest]

theorem pruneEntries_nil (path : String) (entries : List (Key × Node)) :
    pruneEntries [] path entries = entries := by
  match entries with
  | [] => rfl
  | (key, v) :: rest =>
    rw [pruneEntries, if_neg List.not_mem_nil, prune_nil, pruneEntries_nil path rest]

end

/-! ## What encodes still does -/

variable {e : Encoder} {bad : List String}

theorem encodes_null : e.Encodes .null := ⟨1, .null, rfl⟩

theorem hasNames_of_subset {taken taken' : List String} {entries : List (Key × Node)}
    (h : Encoder.HasNames taken entries) (hsub : taken' ⊆ taken) :
    Encoder.HasNames taken' entries := by
  induction entries generalizing taken taken' with
  | nil => trivial
  | cons entry rest ih =>
    obtain ⟨name, hname, htaken, hrest⟩ := h
    exact ⟨name, hname, fun hmem => htaken (hsub hmem),
      ih hrest (List.cons_subset_cons name hsub)⟩

mutual

/-- **Pruning does not harm a node that encodes.** -/
theorem encodes_prune (path : String) (n : Node) (h : e.Encodes n) :
    e.Encodes (prune bad path n) := by
  match n with
  | .array items =>
    rw [prune]
    split
    · exact encodes_null
    · exact Encoder.encodes_array_iff.2
        (encodes_pruneItems path 0 items (Encoder.encodes_array_iff.1 h))
  | .object entries =>
    rw [prune]
    split
    · exact encodes_null
    · obtain ⟨hnames, hvalues⟩ := Encoder.encodes_object_iff.1 h
      exact Encoder.encodes_object_iff.2 (encodes_pruneEntries path [] entries hnames hvalues)
  | .null | .bool _ | .int _ | .uint _ | .float _ | .string _ | .set _ | .timestamp _
  | .duration _ | .bytes _ | .record _ _ | .foreign _ _ =>
    rw [prune]
    split
    · exact encodes_null
    · exact h
    all_goals simp

theorem encodes_pruneItems (path : String) (index : Nat) (items : List Node)
    (h : ∀ v ∈ items, e.Encodes v) : ∀ v ∈ pruneItems bad path index items, e.Encodes v := by
  match items with
  | [] => simp [pruneItems]
  | v :: rest =>
    obtain ⟨hv, hrest⟩ := List.forall_mem_cons.1 h
    rw [pruneItems]
    exact List.forall_mem_cons.2 ⟨encodes_prune (itemPath path index) v hv,
      encodes_pruneItems path (index + 1) rest hrest⟩

theorem encodes_pruneEntries (path : String) (taken : List String) (entries : List (Key × Node))
    (hnames : Encoder.HasNames taken entries) (h : ∀ entry ∈ entries, e.Encodes entry.2) :
    Encoder.HasNames taken (pruneEntries bad path entries) ∧
      ∀ entry ∈ pruneEntries bad path entries, e.Encodes entry.2 := by
  match entries with
  | [] => simp [pruneEntries, Encoder.HasNames]
  | (key, v) :: rest =>
    obtain ⟨name, hname, htaken, hrest⟩ := hnames
    obtain ⟨hv, hvalues⟩ := List.forall_mem_cons.1 h
    obtain ⟨hnames', hvalues'⟩ := encodes_pruneEntries path (name :: taken) rest hrest hvalues
    rw [pruneEntries]
    split
    · exact ⟨hasNames_of_subset hnames' (List.subset_cons_self name taken), hvalues'⟩
    · exact ⟨⟨name, hname, htaken, hnames'⟩,
        List.forall_mem_cons.2 ⟨encodes_prune (valuePath path key) v hv, hvalues'⟩⟩

end

/-! ## What was searched does too -/

variable {encodes : Node → Bool} {root : Part}

/-- What a part that does not encode adds, the list of bad paths has. -/
def Covers (bad : List String) (found : List (String × Node)) : Prop :=
  ∀ path, Report.Has found path → path ∈ bad

theorem covers_cons {path : String} {value : Node} {found : List (String × Node)} :
    Covers bad ((path, value) :: found) ↔ path ∈ bad ∧ Covers bad found := by
  constructor
  · intro h
    exact ⟨h path ⟨value, List.mem_cons_self ..⟩,
      fun p ⟨u, hu⟩ => h p ⟨u, List.mem_cons_of_mem _ hu⟩⟩
  · rintro ⟨hpath, h⟩ p ⟨u, hu⟩
    rcases List.mem_cons.1 hu with heq | hu
    · rw [(Prod.mk.inj heq).1]
      exact hpath
    · exact h p ⟨u, hu⟩

/-- **The bad paths are all that a search finds** which passes over nothing but
what encodes. -/
structure Exhausts (e : Encoder) (encodes : Node → Bool) (root : Part) (bad : List String) :
    Prop where
  covers : ∀ q, Reaches encodes root q → Covers bad (q.look encodes).1
  sound : ∀ m, encodes m = true → e.Encodes m

mutual

/-- **A part that a search reaches encodes once all findings are cut out.**
Where the part encodes on its own, pruning does no harm; where it does not, the
search goes inside or finds it. -/
theorem encodes_prune_of_reaches (h : Exhausts e encodes root bad) (path : String)
    (replaced : Nat) (n : Node) (hreach : Reaches encodes root ⟨n, path, replaced⟩)
    (hplain : ∀ m, n.Within m → ∀ tag rendering, m ≠ .record tag rendering) :
    e.Encodes (prune bad path n) := by
  by_cases haccepted : encodes n = true
  · exact encodes_prune path n (h.sound n haccepted)
  · have hcovers := h.covers _ hreach
    -- what does not encode is opened
    have hinside : ∀ u ∈ (Part.open ⟨n, path, replaced⟩).2, Reaches encodes root u := by
      intro u hu
      refine hreach.inside ?_
      rwa [Part.look, if_neg haccepted]
    rw [Part.look, if_neg haccepted] at hcovers
    match n with
    | .array items =>
      rw [prune]
      split
      · exact encodes_null
      · exact Encoder.encodes_array_iff.2 (encodes_pruneItems_of_reaches h path 0 items hinside
          fun v hv m hm => hplain m (.trans (.item .self hv) hm))
    | .object entries =>
      rw [prune]
      split
      · exact encodes_null
      · exact Encoder.encodes_object_iff.2 (encodes_pruneEntries_of_reaches h path [] entries
          hinside hcovers fun entry hentry m hm => hplain m (.trans (.value .self hentry) hm))
    | .record tag rendering => exact absurd rfl (hplain _ .self tag rendering)
    | .null | .bool _ | .int _ | .uint _ | .float _ | .string _ | .set _ | .timestamp _
    | .duration _ | .bytes _ | .foreign _ _ =>
      -- a leaf is a finding itself
      simp only [prune]
      rw [if_pos (covers_cons.1 hcovers).1]
      exact encodes_null

theorem encodes_pruneItems_of_reaches (h : Exhausts e encodes root bad) (path : String)
    (index : Nat) (items : List Node)
    (hreach : ∀ u ∈ itemParts path index items, Reaches encodes root u)
    (hplain : ∀ v ∈ items, ∀ m, v.Within m → ∀ tag rendering, m ≠ .record tag rendering) :
    ∀ v ∈ pruneItems bad path index items, e.Encodes v := by
  match items with
  | [] => simp [pruneItems]
  | v :: rest =>
    obtain ⟨hv, hrest⟩ := List.forall_mem_cons.1 hplain
    obtain ⟨hreachv, hreachrest⟩ := List.forall_mem_cons.1 hreach
    rw [pruneItems]
    exact List.forall_mem_cons.2 ⟨encodes_prune_of_reaches h (itemPath path index) 0 v hreachv hv,
      encodes_pruneItems_of_reaches h path (index + 1) rest hreachrest hrest⟩

theorem encodes_pruneEntries_of_reaches (h : Exhausts e encodes root bad) (path : String)
    (taken : List String) (entries : List (Key × Node))
    (hreach : ∀ u ∈ (entryParts path taken entries).2, Reaches encodes root u)
    (hcovers : Covers bad (entryParts path taken entries).1)
    (hplain : ∀ entry ∈ entries, ∀ m, entry.2.Within m →
      ∀ tag rendering, m ≠ .record tag rendering) :
    Encoder.HasNames taken (pruneEntries bad path entries) ∧
      ∀ entry ∈ pruneEntries bad path entries, e.Encodes entry.2 := by
  match entries with
  | [] => simp [pruneEntries, Encoder.HasNames]
  | (key, v) :: rest =>
    obtain ⟨hv, hrest⟩ := List.forall_mem_cons.1 hplain
    rcases good_or_bad taken key with ⟨name, hname, htaken⟩ | hbad
    · rw [entryParts_of_good hname htaken] at hreach hcovers
      obtain ⟨hreachv, hreachrest⟩ := List.forall_mem_cons.1 hreach
      obtain ⟨hnames, hvalues⟩ :=
        encodes_pruneEntries_of_reaches h path (name :: taken) rest hreachrest hcovers hrest
      rw [pruneEntries]
      split
      · -- a good entry under the path of a bad key goes too
        exact ⟨hasNames_of_subset hnames (List.subset_cons_self name taken), hvalues⟩
      · exact ⟨⟨name, hname, htaken, hnames⟩, List.forall_mem_cons.2
          ⟨encodes_prune_of_reaches h (valuePath path key) 0 v hreachv hv, hvalues⟩⟩
    · rw [entryParts_of_bad hbad] at hreach hcovers
      obtain ⟨hcut, hcovers⟩ := covers_cons.1 hcovers
      rw [pruneEntries, if_pos hcut]
      exact encodes_pruneEntries_of_reaches h path taken rest hreach hcovers hrest

end

end Diagnosis

end DocStore
