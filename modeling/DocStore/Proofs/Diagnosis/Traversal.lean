import DocStore.Diagnosis.Search
import Mathlib.Data.List.Basic
/-!
# What a search visits

A search comes to every part that it meets on its way: each visit leaves fewer
positions to look at, and there are no more visits than positions
(`weights_look_lt`). So the report holds what any part it `Reaches` adds to
it, and nothing else.
-/

namespace DocStore

namespace Report

/-- A path of the report. -/
def Has (r : Report) (path : String) : Prop := ∃ value, (path, value) ∈ r

variable {r : Report} {path p : String} {value v : Node}

theorem has_cons : Has ((path, value) :: r) p ↔ p = path ∨ r.Has p := by
  simp [Has, exists_or, eq_comm]

theorem mem_of_mem_insert (h : (p, v) ∈ r.insert path value) :
    (p, v) = (path, value) ∨ (p, v) ∈ r := by
  induction r with
  | nil => exact Or.inl (List.mem_singleton.1 h)
  | cons entry rest ih =>
    obtain ⟨q, u⟩ := entry
    rw [insert] at h
    split at h
    next hq =>
      subst hq
      rcases List.mem_cons.1 h with h | h
      · exact Or.inl h
      · exact Or.inr (List.mem_cons_of_mem _ h)
    next =>
      rcases List.mem_cons.1 h with h | h
      · exact Or.inr (h ▸ List.mem_cons_self ..)
      · exact (ih h).imp_right (List.mem_cons_of_mem _)

/-- **Entering a value adds its path** and takes none away. -/
theorem has_insert : (r.insert path value).Has p ↔ p = path ∨ r.Has p := by
  induction r with
  | nil => simp [Has, insert]
  | cons entry rest ih =>
    obtain ⟨q, u⟩ := entry
    rw [insert]
    split
    next hq =>
      subst hq
      rw [has_cons, has_cons]
      exact ⟨fun h => h.elim Or.inl (fun h => Or.inr (Or.inr h)),
        fun h => h.elim Or.inl id⟩
    next =>
      rw [has_cons, has_cons, ih]
      exact or_left_comm

theorem mem_of_mem_insertAll {found : List (String × Node)} (h : (p, v) ∈ insertAll found r) :
    (p, v) ∈ found ∨ (p, v) ∈ r := by
  induction found generalizing r with
  | nil => exact Or.inr h
  | cons entry rest ih =>
    obtain ⟨path, value⟩ := entry
    rcases ih h with h | h
    · exact Or.inl (List.mem_cons_of_mem _ h)
    · rcases mem_of_mem_insert h with h | h
      · exact Or.inl (h ▸ List.mem_cons_self ..)
      · exact Or.inr h

theorem has_insertAll {found : List (String × Node)} :
    Has (insertAll found r) p ↔ Has found p ∨ r.Has p := by
  induction found generalizing r with
  | nil => simp [insertAll, Has]
  | cons entry rest ih =>
    obtain ⟨path, value⟩ := entry
    have hstep : insertAll ((path, value) :: rest) r = insertAll rest (r.insert path value) := rfl
    rw [hstep, ih, has_insert, has_cons]
    constructor
    · rintro (h | h | h)
      · exact Or.inl (Or.inr h)
      · exact Or.inl (Or.inl h)
      · exact Or.inr h
    · rintro ((h | h) | h)
      · exact Or.inr (Or.inl h)
      · exact Or.inl h
      · exact Or.inr (Or.inr h)

end Report

namespace Diagnosis

variable {encodes : Node → Bool}

/-! ## Good and bad keys -/

/-- A key is good if it has a name that none before has taken. -/
theorem good_or_bad (taken : List String) (key : Key) :
    (∃ name, key.name = .ok name ∧ name ∉ taken) ∨
      ∀ name, key.name = .ok name → name ∈ taken := by
  by_cases h : ∃ name, key.name = .ok name ∧ name ∉ taken
  · exact Or.inl h
  · exact Or.inr fun name hname => by_contra fun htaken => h ⟨name, hname, htaken⟩

/-- **The value under a good key is a part**, and its name is taken from there
on. -/
theorem entryParts_of_good {path : String} {taken : List String} {key : Key} {name : String}
    (hname : key.name = .ok name) (htaken : name ∉ taken) (v : Node) (rest : List (Key × Node)) :
    entryParts path taken ((key, v) :: rest) =
      ((entryParts path (name :: taken) rest).1,
        ⟨v, valuePath path key, 0⟩ :: (entryParts path (name :: taken) rest).2) := by
  rw [entryParts, hname]
  dsimp only
  rw [if_neg htaken]

/-- **A bad key is a finding**, and the value under it is passed over. -/
theorem entryParts_of_bad {path : String} {taken : List String} {key : Key}
    (hbad : ∀ name, key.name = .ok name → name ∈ taken) (v : Node) (rest : List (Key × Node)) :
    entryParts path taken ((key, v) :: rest) =
      ((keyPath path key, key.toNode) :: (entryParts path taken rest).1,
        (entryParts path taken rest).2) := by
  rw [entryParts]
  split
  next name hname => rw [if_pos (hbad name hname)]
  next => rfl

/-! ## What is inside a part -/

theorem look_of_encodes {p : Part} (h : encodes p.node = true) : p.look encodes = ([], []) :=
  if_pos h

theorem look_of_fails {p : Part} (h : encodes p.node = false) : p.look encodes = p.open :=
  if_neg (Bool.eq_false_iff.1 h)

/-- **What a part adds when it is opened**: a list its elements, an object its bad
keys and the values under its good ones, a record what it renders to, and
anything else, a record at the limit too, itself as a finding. -/
theorem open_cases (p : Part) :
    (∃ items, p.node = .array items ∧ p.open = ([], itemParts p.path 0 items)) ∨
    (∃ entries, p.node = .object entries ∧ p.open = entryParts p.path [] entries) ∨
    (∃ tag rendering, p.node = .record tag rendering ∧ p.replaced < Encoder.chainLimit ∧
      p.open = ([], [⟨Node.rendered tag rendering, recordPath p.path tag, p.replaced + 1⟩])) ∨
    p.open = ([(p.path, p.node)], []) := by
  obtain ⟨node, path, replaced⟩ := p
  cases node with
  | array items => exact Or.inl ⟨items, rfl, rfl⟩
  | object entries => exact Or.inr (Or.inl ⟨entries, rfl, rfl⟩)
  | record tag rendering =>
    rcases Nat.lt_or_ge replaced Encoder.chainLimit with hlimit | hlimit
    · exact Or.inr (Or.inr (Or.inl ⟨tag, rendering, rfl, hlimit, if_neg (Nat.not_le.2 hlimit)⟩))
    · exact Or.inr (Or.inr (Or.inr (if_pos hlimit)))
  | _ => exact Or.inr (Or.inr (Or.inr rfl))

/-! ## How long a search takes -/

/-- How many visits a part may take, with all that is inside it. -/
def Part.weight (p : Part) : Nat := positions p.replaced p.node

/-- How many visits parts may take. -/
def weights : List Part → Nat
  | [] => 0
  | p :: ps => p.weight + weights ps

theorem weights_append (ps qs : List Part) : weights (ps ++ qs) = weights ps + weights qs := by
  induction ps with
  | nil => exact (Nat.zero_add _).symm
  | cons p ps ih =>
    rw [List.cons_append, weights, weights, ih]
    omega

theorem weights_itemParts (path : String) (index : Nat) (items : List Node) :
    weights (itemParts path index items) = positionsAll items := by
  induction items generalizing index with
  | nil => rfl
  | cons v rest ih =>
    rw [itemParts, weights, ih (index + 1)]
    rfl

theorem weights_entryParts_le (path : String) (taken : List String) (entries : List (Key × Node)) :
    weights (entryParts path taken entries).2 ≤ positionsEntries entries := by
  induction entries generalizing taken with
  | nil => exact Nat.le_refl 0
  | cons entry rest ih =>
    obtain ⟨key, v⟩ := entry
    rw [positionsEntries]
    rcases good_or_bad taken key with ⟨name, hname, htaken⟩ | hbad
    · have hrest := ih (name :: taken)
      rw [entryParts_of_good hname htaken]
      simp only [weights, Part.weight]
      omega
    · have hrest := ih taken
      rw [entryParts_of_bad hbad]
      dsimp only
      omega

/-- A record that renders to itself is looked at until the limit. -/
theorem positions_rendered (tag : RecordTag) (rendering : Option Node) {replaced : Nat}
    (h : replaced < Encoder.chainLimit) :
    positions (replaced + 1) (Node.rendered tag rendering) =
      positionsRendering (replaced + 1) rendering := by
  cases rendering with
  | some n => rw [Node.rendered, Option.getD_some, positionsRendering]
  | none =>
    rw [Node.rendered, Option.getD_none, positions]
    split
    · rw [positionsRendering]
      omega
    · rw [positionsRendering, positionsRendering]
      omega

theorem weight_pos (p : Part) : 0 < p.weight := by
  obtain ⟨node, path, replaced⟩ := p
  cases node with
  | record tag rendering =>
    rw [Part.weight, positions]
    split
    · exact Nat.one_pos
    · exact Nat.succ_pos _
  | _ => simp [Part.weight, positions]

theorem weight_le_weights {p : Part} {ps : List Part} (h : p ∈ ps) : p.weight ≤ weights ps := by
  induction ps with
  | nil => cases h
  | cons q rest ih =>
    rw [weights]
    rcases List.mem_cons.1 h with rfl | h
    · omega
    · have hle := ih h
      omega

/-- **What is inside a part takes fewer visits than the part.** -/
theorem weights_look_lt (p : Part) : weights (p.look encodes).2 < p.weight := by
  rw [Part.look]
  split
  · exact weight_pos p
  · obtain ⟨node, path, replaced⟩ := p
    cases node with
    | array items =>
      simp only [Part.open, weights_itemParts, Part.weight, positions]
      omega
    | object entries =>
      have hentries := weights_entryParts_le path [] entries
      simp only [Part.open, Part.weight, positions]
      omega
    | record tag rendering =>
      simp only [Part.open, Part.weight, positions]
      split
      · exact Nat.one_pos
      next hlimit =>
        have hrendered := positions_rendered tag rendering (Nat.not_le.1 hlimit)
        simp only [weights, Part.weight, hrendered]
        omega
    | _ => exact weight_pos _

/-! ## What a search comes to -/

/-- **A search comes from one part to another**, each inside the one before. -/
inductive Reaches (encodes : Node → Bool) (p : Part) : Part → Prop
  | self : Reaches encodes p p
  | inside {q u : Part} (h : Reaches encodes p q) (hu : u ∈ (q.look encodes).2) :
      Reaches encodes p u

theorem Reaches.head {p q u : Part} (hq : q ∈ (p.look encodes).2) (h : Reaches encodes q u) :
    Reaches encodes p u := by
  induction h with
  | self => exact Reaches.self.inside hq
  | inside _ hu ih => exact ih.inside hu

theorem Reaches.trans {p q u : Part} (h : Reaches encodes p q) (h' : Reaches encodes q u) :
    Reaches encodes p u := by
  induction h' with
  | self => exact h
  | inside _ hu ih => exact ih.inside hu

/-- A part that is reached is the part itself, or is reached from inside it. -/
theorem Reaches.cases_head {p u : Part} (h : Reaches encodes p u) :
    u = p ∨ ∃ q ∈ (p.look encodes).2, Reaches encodes q u := by
  induction h with
  | self => exact Or.inl rfl
  | inside _ hu ih =>
    rcases ih with rfl | ⟨q, hq, hreach⟩
    · exact Or.inr ⟨_, hu, .self⟩
    · exact Or.inr ⟨q, hq, hreach.inside hu⟩

/-- A search ends at what encodes. -/
theorem look_eq_nil_of_encodes {p q : Part} (h : encodes p.node = true) (hq : Reaches encodes p q) :
    (q.look encodes).1 = [] := by
  rcases hq.cases_head with rfl | ⟨u, hu, -⟩
  · rw [look_of_encodes h]
  · rw [look_of_encodes h] at hu
    cases hu

/-- **A search that comes to a part that does not encode comes to a last one**,
all parts inside which encode. -/
theorem exists_last {p : Part} (h : encodes p.node = false) :
    ∃ q, Reaches encodes p q ∧ encodes q.node = false ∧
      ∀ u ∈ (q.look encodes).2, encodes u.node = true := by
  induction hweight : p.weight using Nat.strongRecOn generalizing p with
  | ind weight ih =>
    subst hweight
    by_cases hall : ∀ u ∈ (p.look encodes).2, encodes u.node = true
    · exact ⟨p, .self, h, hall⟩
    · push Not at hall
      obtain ⟨u, hu, hfails⟩ := hall
      have hlt : u.weight < p.weight :=
        Nat.lt_of_le_of_lt (weight_le_weights hu) (weights_look_lt p)
      obtain ⟨q, hq, hlast⟩ := ih u.weight hlt (Bool.eq_false_iff.2 hfails) rfl
      exact ⟨q, hq.head hu, hlast⟩

theorem visit_cons {p : Part} {waiting : List Part} {found : Report} :
    Search.visit encodes ⟨p :: waiting, found⟩ =
      ⟨waiting ++ (p.look encodes).2, Report.insertAll (p.look encodes).1 found⟩ := rfl

/-- **A search that may visit all positions finds what any part adds that it
reaches**, under its path. -/
theorem has_run_iff {s : Search} {visits : Nat} (hvisits : weights s.waiting ≤ visits)
    {path : String} :
    (s.run encodes visits).found.Has path ↔
      s.found.Has path ∨ ∃ p ∈ s.waiting, ∃ q, Reaches encodes p q ∧
        Report.Has (q.look encodes).1 path := by
  induction visits generalizing s with
  | zero =>
    obtain ⟨waiting, found⟩ := s
    cases waiting with
    | nil => simp [Search.run]
    | cons p waiting =>
      have hpos := weight_pos p
      rw [weights] at hvisits
      omega
  | succ visits ih =>
    obtain ⟨waiting, found⟩ := s
    cases waiting with
    | nil =>
      rw [Search.run, ih (by simp [Search.visit, weights])]
      simp [Search.visit]
    | cons p waiting =>
      -- the visit takes a part away and adds what is inside, which weighs less
      have hlt : weights (p.look encodes).2 < p.weight := weights_look_lt p
      have hfewer : weights (waiting ++ (p.look encodes).2) ≤ visits := by
        rw [weights] at hvisits
        rw [weights_append]
        omega
      rw [Search.run, visit_cons, ih hfewer, Report.has_insertAll]
      constructor
      · rintro ((hbad | hfound) | ⟨q, hq, u, hreach, hu⟩)
        · exact Or.inr ⟨p, List.mem_cons_self .., p, .self, hbad⟩
        · exact Or.inl hfound
        · rcases List.mem_append.1 hq with hq | hq
          · exact Or.inr ⟨q, List.mem_cons_of_mem p hq, u, hreach, hu⟩
          · exact Or.inr ⟨p, List.mem_cons_self .., u, .head hq hreach, hu⟩
      · rintro (hfound | ⟨q, hq, u, hreach, hu⟩)
        · exact Or.inl (Or.inr hfound)
        · rcases List.mem_cons.1 hq with rfl | hq
          · rcases hreach.cases_head with rfl | ⟨v, hv, hreach⟩
            · exact Or.inl (Or.inl hu)
            · exact Or.inr ⟨v, List.mem_append_right _ hv, u, hreach, hu⟩
          · exact Or.inr ⟨q, List.mem_append_left _ hq, u, hreach, hu⟩

/-- **Every finding comes from a part that the search reaches.** -/
theorem exists_of_mem_run {s : Search} {visits : Nat} {path : String} {value : Node}
    (h : (path, value) ∈ (s.run encodes visits).found) :
    (path, value) ∈ s.found ∨ ∃ p ∈ s.waiting, ∃ q, Reaches encodes p q ∧
      (path, value) ∈ (q.look encodes).1 := by
  induction visits generalizing s with
  | zero => exact Or.inl h
  | succ visits ih =>
    obtain ⟨waiting, found⟩ := s
    cases waiting with
    | nil => exact (ih h).imp_right fun ⟨p, hp, _⟩ => by cases hp
    | cons p waiting =>
      rcases ih h with h | ⟨q, hq, u, hreach, hu⟩
      · rcases Report.mem_of_mem_insertAll h with h | h
        · exact Or.inr ⟨p, List.mem_cons_self .., p, .self, h⟩
        · exact Or.inl h
      · rcases List.mem_append.1 hq with hq | hq
        · exact Or.inr ⟨q, List.mem_cons_of_mem p hq, u, hreach, hu⟩
        · exact Or.inr ⟨p, List.mem_cons_self .., u, .head hq hreach, hu⟩

/-- **The report has the paths of all findings** of parts reached from the whole
node. -/
theorem has_report_iff {n : Node} {path : String} :
    (report encodes n).Has path ↔
      ∃ q, Reaches encodes (.root n) q ∧ Report.Has (q.look encodes).1 path := by
  rw [report, has_run_iff (by simp [Search.start, weights, Part.weight, Part.root])]
  simp [Search.start, Report.Has]

theorem exists_of_mem_report {n : Node} {path : String} {value : Node}
    (h : (path, value) ∈ report encodes n) :
    ∃ q, Reaches encodes (.root n) q ∧ (path, value) ∈ (q.look encodes).1 := by
  rcases exists_of_mem_run h with h | ⟨p, hp, q, hreach, hq⟩
  · cases h
  · obtain rfl := List.mem_singleton.1 hp
    exact ⟨q, hreach, hq⟩

/-- **A report is empty if no part has findings.** -/
theorem report_eq_nil_iff {v : Node} :
    report encodes v = [] ↔ ∀ q, Reaches encodes (.root v) q → (q.look encodes).1 = [] := by
  have hnil : ∀ r : Report, r = [] ↔ ∀ path, ¬ r.Has path := by
    intro r
    constructor
    · rintro rfl path ⟨value, hvalue⟩
      cases hvalue
    · intro h
      exact List.eq_nil_iff_forall_not_mem.2 fun finding hfinding =>
        h finding.1 ⟨finding.2, hfinding⟩
  rw [hnil]
  simp only [has_report_iff, hnil (Part.look _ _).1]
  exact ⟨fun h q hq path hpath => h path ⟨q, hq, hpath⟩,
    fun h path ⟨q, hq, hpath⟩ => h q hq path hpath⟩

end Diagnosis

end DocStore
