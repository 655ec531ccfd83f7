import DocStore.Proofs.Encoding.Budget
import Mathlib.Tactic.ByContra
/-!
# The first fault is the fault of the whole

Encoding goes through lists and objects from the front and stops at the first
fault. So where all elements in front of one encode, its fault is the fault of the
list; and of an object the first fault is that of a value or that of a key, whichever
comes first.
-/

namespace DocStore

/-! ## Names of keys -/

/-- A key that has a name shows as its name. -/
theorem Key.text_of_name {key : Key} {name : String} (h : key.name = .ok name) :
    key.text = name := by
  cases key with
  | float x =>
    rw [Key.name] at h
    split at h
    · exact Except.ok.inj h
    · cases h
  | composite n => cases h
  | _ => exact Except.ok.inj h

/-- A key without a name is named in its fault as it shows. -/
theorem Key.eq_of_name_error {key : Key} {fault : EncodeError} (h : key.name = .error fault) :
    fault = .invalidKey key.text := by
  cases key with
  | float x =>
    rw [Key.name] at h
    split at h
    · cases h
    · exact (Except.error.inj h).symm
  | composite n => exact (Except.error.inj h).symm
  | _ => cases h

namespace Encoder

variable {e : Encoder} {u : Node} {key : Key} {fault : EncodeError}

/-- **A node fails with this fault**, given a budget that suffices. -/
def FailsWith (e : Encoder) (n : Node) (fault : EncodeError) : Prop :=
  ∃ budget, e.toJson budget n = some (.error fault)

/-- A node has one fault at most. -/
theorem FailsWith.unique {n : Node} {fault fault' : EncodeError} (h : e.FailsWith n fault)
    (h' : e.FailsWith n fault') : fault = fault' := by
  obtain ⟨budget, h⟩ := h
  obtain ⟨budget', h'⟩ := h'
  exact Except.error.inj (toJson_unique h h')

theorem FailsWith.not_encodes {n : Node} (h : e.FailsWith n fault) : ¬ e.Encodes n := by
  obtain ⟨budget, h⟩ := h
  simp [encodes_iff_of_toJson h]

/-! ## Lists -/

/-- Past elements that encode, the elements that follow decide. -/
theorem encodeItems_fault_of_front {front rest : List Node}
    (hfront : ∀ w ∈ front, e.Encodes w)
    (hrest : ∃ budget, (encodeItems (e.encode budget 0) rest).run = some (.error fault)) :
    ∃ budget, (encodeItems (e.encode budget 0) (front ++ rest)).run = some (.error fault) := by
  induction front with
  | nil => exact hrest
  | cons w front ih =>
    obtain ⟨⟨budget, first, hfirst⟩, hfront⟩ := List.forall_mem_cons.1 hfront
    obtain ⟨budget', hothers⟩ := ih hfront
    refine ⟨max budget budget', ?_⟩
    rw [List.cons_append, encodeItems]
    refine run_bind_eq_some.2 (Or.inr ⟨first, ?_, run_bind_eq_some.2 (Or.inl ⟨fault, ?_, rfl⟩)⟩)
    · exact encode_extends (Nat.le_max_left ..) 0 w _ hfirst
    · exact encodeItems_extends (encode_extends (Nat.le_max_right ..) 0) hothers

/-- **The first element that fails** is the fault of the list. -/
theorem FailsWith.array {front : List Node} (h : e.FailsWith u fault)
    (hfront : ∀ w ∈ front, e.Encodes w) (rest : List Node) :
    e.FailsWith (.array (front ++ u :: rest)) fault := by
  obtain ⟨budget, hu⟩ := h
  have hrest : (encodeItems (e.encode budget 0) (u :: rest)).run = some (.error fault) := by
    rw [encodeItems]
    exact run_bind_eq_some.2 (Or.inl ⟨fault, hu, rfl⟩)
  obtain ⟨budget', hitems⟩ := encodeItems_fault_of_front hfront ⟨budget, hrest⟩
  refine ⟨budget' + 1, ?_⟩
  rw [toJson, encode]
  exact run_bind_eq_some.2 (Or.inl ⟨fault, hitems, rfl⟩)

/-! ## Objects -/

/-- The names taken behind some entries. -/
def takenBehind : (taken : List String) → List (Key × Node) → List String
  | taken, [] => taken
  | taken, (key, _) :: rest =>
    match key.name with
    | .ok name => takenBehind (name :: taken) rest
    | .error _ => takenBehind taken rest

theorem mem_takenBehind {name : String} {taken : List String} {front : List (Key × Node)} :
    name ∈ takenBehind taken front ↔
      name ∈ taken ∨ ∃ entry ∈ front, entry.1.name = .ok name := by
  induction front generalizing taken with
  | nil => simp [takenBehind]
  | cons entry front ih =>
    obtain ⟨key, v⟩ := entry
    rw [takenBehind]
    cases hname : key.name with
    | error fault => simp [ih, hname]
    | ok other => simp [ih, hname, eq_comm, or_assoc, or_left_comm]

theorem takenBehind_append {taken : List String} {front rest : List (Key × Node)} :
    takenBehind taken (front ++ rest) = takenBehind (takenBehind taken front) rest := by
  induction front generalizing taken with
  | nil => rfl
  | cons entry front ih =>
    obtain ⟨key, v⟩ := entry
    rw [List.cons_append, takenBehind, takenBehind]
    cases key.name with
    | error fault => exact ih
    | ok name => exact ih

/-- **Keys have names of their own one after the other.** -/
theorem hasNames_append {taken : List String} {front rest : List (Key × Node)} :
    HasNames taken (front ++ rest) ↔
      HasNames taken front ∧ HasNames (takenBehind taken front) rest := by
  induction front generalizing taken with
  | nil => simp [HasNames, takenBehind]
  | cons entry front ih =>
    obtain ⟨key, v⟩ := entry
    rw [List.cons_append, HasNames, HasNames, takenBehind]
    cases key.name with
    | error fault => simp
    | ok name => simp [ih, and_assoc]

/-- Past entries that encode, the entries that follow decide. -/
theorem encodeEntries_fault_of_front {taken : List String} {front rest : List (Key × Node)}
    (hnames : HasNames taken front) (hfront : ∀ entry ∈ front, e.Encodes entry.2)
    (hrest : ∃ budget, (encodeEntries (e.encode budget 0) (takenBehind taken front) rest).run =
      some (.error fault)) :
    ∃ budget,
      (encodeEntries (e.encode budget 0) taken (front ++ rest)).run = some (.error fault) := by
  induction front generalizing taken with
  | nil => exact hrest
  | cons entry front ih =>
    obtain ⟨key, w⟩ := entry
    obtain ⟨name, hname, hfree, hnames⟩ := hnames
    obtain ⟨⟨budget, first, hfirst⟩, hfront⟩ := List.forall_mem_cons.1 hfront
    rw [takenBehind, hname] at hrest
    obtain ⟨budget', hothers⟩ := ih hnames hfront hrest
    refine ⟨max budget budget', ?_⟩
    rw [List.cons_append, encodeEntries, hname]
    dsimp only
    rw [if_neg hfree]
    refine run_bind_eq_some.2 (Or.inr ⟨first, ?_, run_bind_eq_some.2 (Or.inl ⟨fault, ?_, rfl⟩)⟩)
    · exact encode_extends (Nat.le_max_left ..) 0 w _ hfirst
    · exact encodeEntries_extends (encode_extends (Nat.le_max_right ..) 0) hothers

theorem failsWith_object {front rest : List (Key × Node)} (hnames : HasNames [] front)
    (hfront : ∀ entry ∈ front, e.Encodes entry.2)
    (hrest : ∃ budget, (encodeEntries (e.encode budget 0) (takenBehind [] front) rest).run =
      some (.error fault)) :
    e.FailsWith (.object (front ++ rest)) fault := by
  obtain ⟨budget, hentries⟩ := encodeEntries_fault_of_front hnames hfront hrest
  refine ⟨budget + 1, ?_⟩
  rw [toJson, encode]
  exact run_bind_eq_some.2 (Or.inl ⟨fault, hentries, rfl⟩)

/-- **The first value that fails** is the fault of the object, if no key up to it is
bad. -/
theorem FailsWith.object {front : List (Key × Node)} (h : e.FailsWith u fault)
    (hnames : HasNames [] (front ++ [(key, u)])) (hfront : ∀ entry ∈ front, e.Encodes entry.2)
    (rest : List (Key × Node)) : e.FailsWith (.object (front ++ (key, u) :: rest)) fault := by
  obtain ⟨budget, hu⟩ := h
  obtain ⟨hnames, name, hname, hfree, -⟩ := hasNames_append.1 hnames
  refine failsWith_object hnames hfront ⟨budget, ?_⟩
  rw [encodeEntries, hname]
  dsimp only
  rw [if_neg hfree]
  exact run_bind_eq_some.2 (Or.inl ⟨fault, hu, rfl⟩)

/-- **The first bad key** is the fault of the object, named as the key shows. -/
theorem failsWith_object_of_badKey {front : List (Key × Node)} (hnames : HasNames [] front)
    (hfront : ∀ entry ∈ front, e.Encodes entry.2) (hbad : ¬ HasNames [] (front ++ [(key, u)]))
    (rest : List (Key × Node)) :
    e.FailsWith (.object (front ++ (key, u) :: rest)) (.invalidKey key.text) := by
  refine failsWith_object hnames hfront ⟨0, ?_⟩
  rw [encodeEntries]
  cases hname : key.name with
  | error fault => rw [Key.eq_of_name_error hname]; rfl
  | ok name =>
    have htaken : name ∈ takenBehind [] front := by
      by_contra hfree
      exact hbad (hasNames_append.2 ⟨hnames, name, hname, hfree, trivial⟩)
    dsimp only
    rw [if_pos htaken, Key.text_of_name hname]
    rfl

end Encoder

end DocStore
