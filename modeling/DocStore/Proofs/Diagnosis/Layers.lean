import DocStore.Proofs.Diagnosis.Traversal
/-!
# Searching in layers

A queue holds the rest of one layer in front of what was found of the next. Here the
loop of a search is run with any way of looking at a part, as long as what is inside a
part takes fewer visits than the part. Such a loop takes the layers one after the
other, each from left to right, and comes to its end (`runBy_eq`).
-/

namespace DocStore

namespace Report

variable {r : Report} {path : String} {value : Node}

/-- Values are entered one after the other. -/
theorem insertAll_append (xs ys : List (String × Node)) (r : Report) :
    insertAll (xs ++ ys) r = insertAll ys (insertAll xs r) :=
  List.foldl_append

theorem insert_of_new (h : path ∉ r.map (·.1)) : r.insert path value = r ++ [(path, value)] := by
  induction r with
  | nil => rfl
  | cons entry rest ih =>
    obtain ⟨p, u⟩ := entry
    rw [List.map_cons, List.mem_cons, not_or] at h
    rw [insert, if_neg (Ne.symm h.1), ih h.2, List.cons_append]

/-- **Under paths that differ nothing is overwritten.** -/
theorem insertAll_of_nodup {found : List (String × Node)} (h : ((r ++ found).map (·.1)).Nodup) :
    insertAll found r = r ++ found := by
  induction found generalizing r with
  | nil => exact (List.append_nil r).symm
  | cons entry rest ih =>
    obtain ⟨path, value⟩ := entry
    have hnew : path ∉ r.map (·.1) := by
      rw [List.map_append, List.nodup_append] at h
      exact fun hmem => h.2.2 path hmem path (List.mem_cons_self ..) rfl
    have hstep : insertAll ((path, value) :: rest) r = insertAll rest (r.insert path value) := rfl
    rw [List.append_cons] at h
    rw [hstep, insert_of_new hnew, ih h, ← List.append_cons]

end Report

namespace Diagnosis

/-- Looks at the next part in the given way; what is inside it waits behind all
others. -/
def Search.visitBy (look : Part → List (String × Node) × List Part) (s : Search) : Search :=
  match s.waiting with
  | [] => s
  | p :: waiting => ⟨waiting ++ (look p).2, Report.insertAll (look p).1 s.found⟩

/-- Looks at as many parts as `visits` says, in the given way. -/
def Search.runBy (look : Part → List (String × Node) × List Part) (s : Search) :
    (visits : Nat) → Search
  | 0 => s
  | visits + 1 => (s.visitBy look).runBy look visits

/-- **A search is a loop** that passes over what encodes. -/
theorem run_eq_runBy (encodes : Node → Bool) (s : Search) (visits : Nat) :
    s.run encodes visits = s.runBy (Part.look encodes) visits := by
  induction visits generalizing s with
  | zero => rfl
  | succ visits ih =>
    have hvisit : s.visit encodes = s.visitBy (Part.look encodes) := by
      obtain ⟨_ | ⟨p, waiting⟩, found⟩ := s <;> rfl
    rw [Search.run, Search.runBy, hvisit, ih]

/-- **The findings in the layers below some parts**, as many layers as are asked for,
each from left to right. -/
def layers (look : Part → List (String × Node) × List Part) :
    (depths : Nat) → List Part → List (String × Node)
  | 0, _ => []
  | depths + 1, layer =>
    (layer.flatMap fun p => (look p).1) ++ layers look depths (layer.flatMap fun p => (look p).2)

variable {look : Part → List (String × Node) × List Part} {layer : List Part}

theorem runBy_nil (found : Report) (visits : Nat) :
    Search.runBy look ⟨[], found⟩ visits = ⟨[], found⟩ := by
  induction visits with
  | zero => rfl
  | succ visits ih => exact ih

theorem runBy_add (s : Search) (m n : Nat) :
    s.runBy look (m + n) = (s.runBy look m).runBy look n := by
  induction m generalizing s with
  | zero => rw [Nat.zero_add, Search.runBy]
  | succ m ih => rw [Nat.add_right_comm, Search.runBy, Search.runBy, ih]

/-- **A layer is visited part by part**: its findings are entered in order, and what
is inside its parts waits in order behind what waited already. -/
theorem runBy_layer (look : Part → List (String × Node) × List Part) (layer next : List Part)
    (found : Report) :
    Search.runBy look ⟨layer ++ next, found⟩ layer.length =
      ⟨next ++ layer.flatMap fun p => (look p).2,
        Report.insertAll (layer.flatMap fun p => (look p).1) found⟩ := by
  induction layer generalizing next found with
  | nil => simp [Search.runBy, Report.insertAll]
  | cons p rest ih =>
    have hvisit : Search.visitBy look ⟨p :: (rest ++ next), found⟩ =
        ⟨rest ++ next ++ (look p).2, Report.insertAll (look p).1 found⟩ := rfl
    rw [List.length_cons, List.cons_append, Search.runBy, hvisit, List.append_assoc, ih,
      List.flatMap_cons, List.flatMap_cons, Report.insertAll_append, List.append_assoc]

theorem weights_flatMap_add_length_le (hless : ∀ p, weights (look p).2 < p.weight)
    (layer : List Part) :
    weights (layer.flatMap fun p => (look p).2) + layer.length ≤ weights layer := by
  induction layer with
  | nil => exact Nat.le_refl 0
  | cons p rest ih =>
    have hp := hless p
    rw [List.flatMap_cons, weights_append, List.length_cons, weights]
    omega

/-- **A loop that may visit all positions finds everything layer by layer** and leaves
no part waiting. -/
theorem runBy_eq (hless : ∀ p, weights (look p).2 < p.weight) {visits depths : Nat}
    (hvisits : weights layer ≤ visits) (hdepths : weights layer ≤ depths) (found : Report) :
    Search.runBy look ⟨layer, found⟩ visits =
      ⟨[], Report.insertAll (layers look depths layer) found⟩ := by
  induction depths generalizing layer visits found with
  | zero =>
    cases layer with
    | nil => rw [runBy_nil]; rfl
    | cons p rest =>
      have hpos : 0 < p.weight := weight_pos p
      rw [weights] at hdepths
      omega
  | succ depths ih =>
    -- a layer that is not empty weighs more than the next, so some depth is left for it
    have hnext := weights_flatMap_add_length_le hless layer
    obtain ⟨rest, rfl⟩ : ∃ rest, visits = layer.length + rest := ⟨visits - layer.length, by omega⟩
    have hlayer := runBy_layer look layer [] found
    rw [List.append_nil, List.nil_append] at hlayer
    have hfewer : weights (layer.flatMap fun p => (look p).2) ≤ depths := by
      cases layer with
      | nil => exact Nat.zero_le _
      | cons p others =>
        rw [List.length_cons] at hnext
        omega
    rw [runBy_add, hlayer, ih (by omega) hfewer, layers, Report.insertAll_append]

/-! ## Searching a node -/

variable {encodes : Node → Bool} {v : Node}

theorem weights_root (v : Node) : weights [Part.root v] = positions 0 v := by
  simp [weights, Part.weight, Part.root]

/-- **A search of a node is over when as many parts were looked at as there are
positions**: no part waits, and what it found is in the layers. -/
theorem run_start {visits : Nat} (hvisits : positions 0 v ≤ visits) :
    (Search.start v).run encodes visits =
      ⟨[], Report.insertAll (layers (Part.look encodes) (positions 0 v) [.root v]) []⟩ := by
  have hweights := Nat.le_of_eq (weights_root v)
  rw [run_eq_runBy, Search.start,
    runBy_eq weights_look_lt (Nat.le_trans hweights hvisits) hweights]

end Diagnosis

end DocStore
