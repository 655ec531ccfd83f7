import DocStore.Proofs.Diagnosis.Located
import DocStore.Proofs.Diagnosis.Paths
/-!
# Every fault with its own value

The paths of a report differ, so where two faults have one path the later value
stands for both. With clear keys the path of a fault says at which place of the
node it is (`fault?_inj`), and the report has exactly the faults, each with its
own value.
-/

namespace DocStore

namespace Report

variable {r : Report} {path : String} {value : Node}

theorem nodup_insert (h : (r.map (·.1)).Nodup) : ((r.insert path value).map (·.1)).Nodup := by
  induction r with
  | nil => simp [insert]
  | cons entry rest ih =>
    obtain ⟨p, v⟩ := entry
    rw [List.map_cons, List.nodup_cons] at h
    rw [insert]
    split
    next => exact List.nodup_cons.2 h
    next hne =>
      refine List.nodup_cons.2 ⟨fun hp => ?_, ih h.2⟩
      obtain ⟨⟨q, u⟩, hmem, rfl⟩ := List.mem_map.1 hp
      rcases has_insert.1 ⟨u, hmem⟩ with hq | ⟨w, hw⟩
      · exact hne hq
      · exact h.1 (List.mem_map.2 ⟨(q, w), hw, rfl⟩)

theorem nodup_insertAll {found : List (String × Node)} (h : (r.map (·.1)).Nodup) :
    ((insertAll found r).map (·.1)).Nodup := by
  induction found generalizing r with
  | nil => exact h
  | cons entry rest ih => exact ih (nodup_insert h)

end Report

namespace Diagnosis

variable {encodes : Node → Bool} {p q : Part} {v : Node}

theorem nodup_run {s : Search} (h : (s.found.map (·.1)).Nodup) (visits : Nat) :
    ((s.run encodes visits).found.map (·.1)).Nodup := by
  induction visits generalizing s with
  | zero => exact h
  | succ visits ih =>
    refine ih ?_
    obtain ⟨_ | ⟨p, waiting⟩, found⟩ := s
    · exact h
    · exact Report.nodup_insertAll h

/-- **The paths of a report differ.** -/
theorem nodup_report (encodes : Node → Bool) (v : Node) : ((report encodes v).map (·.1)).Nodup :=
  nodup_run (s := .start v) List.nodup_nil _

/-! ## Places -/

/-- **The part at a place**: the numbers of the parts to go into. -/
def Part.at? (encodes : Node → Bool) : (place : List Nat) → Part → Option Part
  | [], p => some p
  | i :: place, p => (p.look encodes).2[i]?.bind (Part.at? encodes place)

/-- **The fault at a place**: one of the findings of the part that is there. -/
def Part.fault? (encodes : Node → Bool) (place : List Nat) (i : Nat) (p : Part) :
    Option (String × Node) :=
  (p.at? encodes place).bind fun q => (q.look encodes).1[i]?

theorem at?_concat {place : List Nat} {i : Nat} :
    p.at? encodes (place ++ [i]) =
      (p.at? encodes place).bind fun q => (q.look encodes).2[i]? := by
  induction place generalizing p with
  | nil => simp [Part.at?]
  | cons j place ih =>
    rw [List.cons_append, Part.at?, Part.at?, Option.bind_assoc]
    exact congrArg _ (funext fun u => ih)

/-- **The parts that a search reaches are those at the places.** -/
theorem reaches_iff : Reaches encodes p q ↔ ∃ place, p.at? encodes place = some q := by
  constructor
  · intro h
    induction h with
    | self => exact ⟨[], rfl⟩
    | inside _ hu ih =>
      obtain ⟨place, hplace⟩ := ih
      obtain ⟨i, hi⟩ := List.getElem?_of_mem hu
      exact ⟨place ++ [i], by rw [at?_concat, hplace]; exact hi⟩
  · rintro ⟨place, hplace⟩
    induction place generalizing p with
    | nil =>
      obtain rfl := Option.some.inj hplace
      exact .self
    | cons i place ih =>
      obtain ⟨u, hu, hplace⟩ := Option.bind_eq_some_iff.1 hplace
      exact (ih hplace).head (List.mem_of_getElem? hu)

theorem mem_look_iff_fault? {finding : String × Node} :
    (∃ q, Reaches encodes p q ∧ finding ∈ (q.look encodes).1) ↔
      ∃ place i, p.fault? encodes place i = some finding := by
  constructor
  · rintro ⟨q, hq, hfinding⟩
    obtain ⟨place, hplace⟩ := reaches_iff.1 hq
    obtain ⟨i, hi⟩ := List.getElem?_of_mem hfinding
    exact ⟨place, i, by rw [Part.fault?, hplace]; exact hi⟩
  · rintro ⟨place, i, h⟩
    obtain ⟨q, hplace, hi⟩ := Option.bind_eq_some_iff.1 h
    exact ⟨q, reaches_iff.2 ⟨place, hplace⟩, List.mem_of_getElem? hi⟩

theorem fault?_cons {place : List Nat} {i j : Nat} {finding : String × Node} :
    p.fault? encodes (j :: place) i = some finding ↔
      ∃ u, (p.look encodes).2[j]? = some u ∧ u.fault? encodes place i = some finding := by
  simp only [Part.fault?, Part.at?, Option.bind_assoc, Option.bind_eq_some_iff]

/-- Only a part that fails has faults at its places. -/
theorem fails_of_fault? {place : List Nat} {i : Nat} {finding : String × Node}
    (h : p.fault? encodes place i = some finding) : encodes p.node = false := by
  refine Bool.eq_false_iff.2 fun haccepted => ?_
  have hlook := look_of_encodes haccepted
  cases place with
  | nil => simp [Part.fault?, Part.at?, hlook] at h
  | cons j place =>
    obtain ⟨u, hu, -⟩ := fault?_cons.1 h
    simp [hlook] at hu

/-- **A fault lies below the part it is in.** -/
theorem below_of_fault? {place : List Nat} {i : Nat} {finding : String × Node}
    (h : p.fault? encodes place i = some finding) : Below p.path finding.1 := by
  induction place generalizing p with
  | nil =>
    have hlook := look_of_fails (fails_of_fault? h)
    simp only [Part.fault?, Part.at?, Option.bind_some, hlook] at h
    exact below_of_mem_findings (List.mem_of_getElem? h)
  | cons j place ih =>
    have hlook := look_of_fails (fails_of_fault? h)
    obtain ⟨u, hu, h⟩ := fault?_cons.1 h
    rw [hlook] at hu
    exact (below_of_mem_open (List.mem_of_getElem? hu)).trans (ih h)

/-- **With clear keys a path says where its fault lies.** At a turn two places
take different parts beside each other, and below those no path is the same. -/
theorem fault?_inj (hclear : ∀ q, Reaches encodes p q → q.Clear encodes) {place place' : List Nat}
    {i i' : Nat} {f g : String × Node} (hf : p.fault? encodes place i = some f)
    (hg : p.fault? encodes place' i' = some g) (hpath : f.1 = g.1) : place = place' ∧ i = i' := by
  have hlook := look_of_fails (fails_of_fault? hf)
  induction place generalizing p place' with
  | nil =>
    have hf' : p.open.1[i]? = some f := by simpa [Part.fault?, Part.at?, hlook] using hf
    cases place' with
    | nil =>
      have hg' : p.open.1[i']? = some g := by simpa [Part.fault?, Part.at?, hlook] using hg
      have hlt : i < (p.open.1.map (·.1)).length := by
        simpa using (List.getElem?_eq_some_iff.1 hf').1
      have hnodup := (hclear p .self).nodup_findings
      exact ⟨rfl, (List.getElem?_inj hlt hnodup).1 (by simp [hf', hg', hpath])⟩
    | cons j place' =>
      obtain ⟨u, hu, hg⟩ := fault?_cons.1 hg
      rw [hlook] at hu
      exact absurd hpath (finding_ne_of_below (List.mem_of_getElem? hf')
        (List.mem_of_getElem? hu) (below_of_fault? hg))
  | cons j place ih =>
    obtain ⟨u, hu, hf⟩ := fault?_cons.1 hf
    cases place' with
    | nil =>
      have hg' : p.open.1[i']? = some g := by simpa [Part.fault?, Part.at?, hlook] using hg
      rw [hlook] at hu
      exact absurd hpath.symm (finding_ne_of_below (List.mem_of_getElem? hg')
        (List.mem_of_getElem? hu) (below_of_fault? hf))
    | cons j' place' =>
      obtain ⟨w, hw, hg⟩ := fault?_cons.1 hg
      have hturn : j = j' := (hclear p .self).index_eq (hlook ▸ hu) (hlook ▸ hw)
        (fails_of_fault? hf) (fails_of_fault? hg) (below_of_fault? hf)
        (hpath ▸ below_of_fault? hg)
      subst hturn
      obtain rfl := Option.some.inj (hu.symm.trans hw)
      obtain ⟨rfl, hi⟩ := ih (fun q hq => hclear q (hq.head (List.mem_of_getElem? hu))) hf hg
        (look_of_fails (fails_of_fault? hf))
      exact ⟨rfl, hi⟩

/-- With clear keys the report has every fault with its own value: the value under
the path is that of some fault, and no other has the path. -/
theorem mem_report_of_fault? (hclear : ∀ q, Reaches encodes (.root v) q → q.Clear encodes)
    {place : List Nat} {i : Nat} {f : String × Node}
    (h : (Part.root v).fault? encodes place i = some f) : f ∈ report encodes v := by
  obtain ⟨q, hq, hlook⟩ := mem_look_iff_fault?.2 ⟨place, i, h⟩
  obtain ⟨value, hvalue⟩ := has_report_iff.2 ⟨q, hq, f.2, hlook⟩
  obtain ⟨place', i', h'⟩ := mem_look_iff_fault?.1 (exists_of_mem_report hvalue)
  obtain ⟨rfl, rfl⟩ := fault?_inj hclear h h' rfl
  rw [Option.some.inj (h.symm.trans h')]
  exact hvalue

/-- **No fault is lost from a report if the keys are clear.** Under the encoder
without substitutes the paths of the report differ, each entry is a fault with its
own value, and the path of each fault is there. If the keys of all objects that
the search goes into are clear, faults at different places have different paths,
so the report has one entry for each of them, with its own value. No attempt runs
out of a budget from the height of the node on. -/
theorem report_has_each_fault (v : Node) (budget : Nat) :
    (v.height ≤ budget → ∀ q, Reaches (Encoder.strict.accepts budget) (.root v) q →
      (Encoder.strict.toJson budget q.node).isSome) ∧
    ((Encoder.strict.diagnose budget v).map (·.1)).Nodup ∧
    (∀ finding ∈ Encoder.strict.diagnose budget v,
      ∃ place i, (Part.root v).fault? (Encoder.strict.accepts budget) place i = some finding) ∧
    (∀ place i f, (Part.root v).fault? (Encoder.strict.accepts budget) place i = some f →
      ∃ value, (f.1, value) ∈ Encoder.strict.diagnose budget v) ∧
    ((∀ q, Reaches (Encoder.strict.accepts budget) (.root v) q →
        q.Clear (Encoder.strict.accepts budget)) →
      (∀ place i place' i' f g,
        (Part.root v).fault? (Encoder.strict.accepts budget) place i = some f →
        (Part.root v).fault? (Encoder.strict.accepts budget) place' i' = some g →
        f.1 = g.1 → place = place' ∧ i = i') ∧
      ∀ place i f, (Part.root v).fault? (Encoder.strict.accepts budget) place i = some f →
        f ∈ Encoder.strict.diagnose budget v) := by
  refine ⟨fun hbudget q hq => ?_, nodup_report _ v, fun finding hfinding => ?_,
    fun place i f hf => ?_, fun hclear => ⟨?_, fun place i f => mem_report_of_fault? hclear⟩⟩
  · exact Encoder.Stock.strict.isSome_toJson (Nat.le_trans hq.height_le hbudget)
  · exact mem_look_iff_fault?.1 (exists_of_mem_report hfinding)
  · obtain ⟨q, hq, hlook⟩ := mem_look_iff_fault?.2 ⟨place, i, hf⟩
    exact has_report_iff.2 ⟨q, hq, f.2, hlook⟩
  · exact fun place i place' i' f g => fault?_inj hclear

/-- A set and a byte string under keys of their own. -/
def sideBySide : Node := .object [(.string "a", .set []), (.string "b", .bytes [])]

theorem report_has_each_fault_sideBySide :
    (∀ q, Reaches (Encoder.strict.accepts 3) (.root sideBySide) q →
      q.Clear (Encoder.strict.accepts 3)) ∧
      ("$.b", .bytes []) ∈ Encoder.strict.diagnose 3 sideBySide := by
  have hclear : ∀ q, Reaches (Encoder.strict.accepts 3) (.root sideBySide) q →
      q.Clear (Encoder.strict.accepts 3) := by
    intro q hq entries hentries
    rcases hq.cases_head with rfl | ⟨u, hu, hreach⟩
    · obtain rfl := Node.object.inj hentries
      have hlength : ∀ entry ∈ goodEntries [] [(.string "a", .set []), (.string "b", .bytes [])],
          entry.1.text.toList.length = 1 := by
        simp [goodEntries, Key.name, Key.text]
      refine ⟨List.nodup_nil, ?_⟩
      rintro entry hentry other hother - - ⟨c, -, hprefix⟩
      have hle := hprefix.length_le
      simp [hlength entry hentry, hlength other hother] at hle
    · -- the two leaves have nothing inside
      have hleaves : u ∈ ([⟨.set [], "$.a", 0⟩, ⟨.bytes [], "$.b", 0⟩] : List Part) := hu
      rcases hreach.cases_head with rfl | ⟨w, hw, -⟩
      · rcases List.mem_pair.1 hleaves with rfl | rfl <;> cases hentries
      · rcases List.mem_pair.1 hleaves with rfl | rfl <;> cases hw
  exact ⟨hclear, ((report_has_each_fault sideBySide 3).2.2.2.2 hclear).2 [1] 0 _ rfl⟩

/-- A set under `a.b`, and a byte string under `b` in what is under `a`. -/
def dotted : Node :=
  .object [(.string "a.b", .set []), (.string "a", .object [(.string "b", .bytes [])])]

/-- **A dot in a key loses a fault**: two faults at different places have one path,
and the report has the later one only. -/
theorem fault_lost :
    (Part.root dotted).fault? (Encoder.strict.accepts 3) [0] 0 = some ("$.a.b", .set []) ∧
      (Part.root dotted).fault? (Encoder.strict.accepts 3) [1, 0] 0 = some ("$.a.b", .bytes []) ∧
      Encoder.strict.diagnose 3 dotted = [("$.a.b", .bytes [])] := ⟨rfl, rfl, rfl⟩

end Diagnosis

end DocStore
