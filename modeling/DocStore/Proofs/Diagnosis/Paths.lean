import DocStore.Proofs.Diagnosis.Traversal
import DocStore.Proofs.Encoding.FirstFault
import Mathlib.Data.List.Nodup
/-!
# Paths beside each other

A path is written without escapes, so a key that holds the signs of a path may
give the path of another part. Where the keys of an object are clear
(`ClearKeys`), that cannot happen: no path lies below two parts of it in which
there are faults. Indices need no such condition, since each ends with its
bracket, nor do labels, since only one part lies behind a record.
-/

namespace DocStore

namespace Diagnosis

variable {encodes : Node → Bool} {p u w : Part} {x : String}

/-! ## Good and bad keys of an object -/

/-- The bad keys among entries, when some names are taken. -/
def badKeys : (taken : List String) → List (Key × Node) → List Key
  | _, [] => []
  | taken, (key, _) :: rest =>
    match key.name with
    | .ok name =>
      if name ∈ taken then key :: badKeys taken rest else badKeys (name :: taken) rest
    | .error _ => key :: badKeys taken rest

/-- The entries under good keys. -/
def goodEntries : (taken : List String) → List (Key × Node) → List (Key × Node)
  | _, [] => []
  | taken, (key, v) :: rest =>
    match key.name with
    | .ok name =>
      if name ∈ taken then goodEntries taken rest
      else (key, v) :: goodEntries (name :: taken) rest
    | .error _ => goodEntries taken rest

theorem entryParts_eq (path : String) (taken : List String) (entries : List (Key × Node)) :
    entryParts path taken entries =
      ((badKeys taken entries).map fun key => (keyPath path key, key.toNode),
        (goodEntries taken entries).map fun entry => ⟨entry.2, valuePath path entry.1, 0⟩) := by
  induction entries generalizing taken with
  | nil => rfl
  | cons entry rest ih =>
    obtain ⟨key, v⟩ := entry
    rw [entryParts, badKeys, goodEntries]
    cases key.name with
    | ok name => by_cases htaken : name ∈ taken <;> simp [htaken, ih]
    | error fault => simp [ih]

/-- **The good keys of an object show as different texts**, none of them taken. -/
theorem nodup_goodEntries (taken : List String) (entries : List (Key × Node)) :
    ((goodEntries taken entries).map (·.1.text)).Nodup ∧
      ∀ entry ∈ goodEntries taken entries, entry.1.text ∉ taken := by
  induction entries generalizing taken with
  | nil => simp [goodEntries]
  | cons entry rest ih =>
    obtain ⟨key, v⟩ := entry
    rw [goodEntries]
    split
    next name hname =>
      split
      next => exact ih taken
      next hfree =>
        obtain ⟨hnodup, htaken⟩ := ih (name :: taken)
        have htext := Key.text_of_name hname
        refine ⟨List.nodup_cons.2 ⟨fun hmem => ?_, hnodup⟩, List.forall_mem_cons.2 ⟨?_, ?_⟩⟩
        · obtain ⟨other, hother, heq⟩ := List.mem_map.1 hmem
          exact htaken other hother (by simp [heq, htext])
        · rwa [htext]
        · exact fun other hother hmem => htaken other hother (List.mem_cons_of_mem _ hmem)
    next => exact ih taken

/-! ## Below a path -/

/-- The signs with which a path goes on. -/
def openers : List Char := ['.', '[', '(', '<']

/-- **A path lies below another**: it is that path, or goes on from it with an
opening sign. -/
def Below (path x : String) : Prop :=
  ∃ s, x.toList = path.toList ++ s ∧ ∀ c ∈ s.head?, c ∈ openers

theorem Below.refl (path : String) : Below path path := ⟨[], by simp, by simp⟩

theorem Below.trans {path y : String} (h : Below path y) (h' : Below y x) : Below path x := by
  obtain ⟨s, hs, hhead⟩ := h
  obtain ⟨t, ht, hhead'⟩ := h'
  refine ⟨s ++ t, by rw [ht, hs, List.append_assoc], ?_⟩
  cases s with
  | nil => exact hhead'
  | cons c s => exact hhead

theorem below_append (path : String) {s : String} (h : ∀ c ∈ s.toList.head?, c ∈ openers) :
    Below path (path ++ s) := ⟨s.toList, String.toList_append, h⟩

/-- **One text goes on from another as a path does.** -/
def GoesOn (s t : List Char) : Prop := ∃ c ∈ openers, s ++ [c] <+: t

/-- **What lies below two paths**: they are the same, or one goes on from the
other. -/
theorem goesOn_of_below {s t : String} {path : String} (hs : Below (path ++ s) x)
    (ht : Below (path ++ t) x) :
    s.toList = t.toList ∨ GoesOn s.toList t.toList ∨ GoesOn t.toList s.toList := by
  obtain ⟨l, hl, hhead⟩ := hs
  obtain ⟨m, hm, hhead'⟩ := ht
  rw [hl, String.toList_append, String.toList_append, List.append_assoc, List.append_assoc,
    List.append_cancel_left_eq] at hm
  rcases List.append_eq_append_iff.1 hm with ⟨_ | ⟨c, cs⟩, heq, rfl⟩ | ⟨_ | ⟨c, cs⟩, heq, rfl⟩
  · exact Or.inl (by simp [heq])
  · exact Or.inr (Or.inl ⟨c, hhead c (by simp), cs, by simp [heq]⟩)
  · exact Or.inl (by simp [heq])
  · exact Or.inr (Or.inr ⟨c, hhead' c (by simp), cs, by simp [heq]⟩)

/-! ## What a part adds to a path -/

theorem itemPath_eq (path : String) (index : Nat) :
    itemPath path index = path ++ ("[" ++ index.repr ++ "]") := by
  simp [itemPath, String.append_assoc]

theorem valuePath_eq (path : String) (key : Key) :
    valuePath path key = path ++ ("." ++ key.text) := String.append_assoc ..

theorem recordPath_eq (path : String) (tag : RecordTag) :
    recordPath path tag = path ++ ("(" ++ tag.label ++ ")") := by
  simp [recordPath, String.append_assoc]

theorem keyPath_eq (path : String) (key : Key) :
    keyPath path key = path ++ ("<key: " ++ key.text ++ ">") := by
  simp [keyPath, String.append_assoc]

theorem getElem?_itemParts (path : String) (index : Nat) (items : List Node) (i : Nat) :
    (itemParts path index items)[i]? =
      items[i]?.map fun v => ⟨v, itemPath path (index + i), 0⟩ := by
  induction items generalizing index i with
  | nil => simp [itemParts]
  | cons v rest ih =>
    cases i with
    | zero => rfl
    | succ i => simp [itemParts, ih, Nat.add_right_comm, Nat.add_assoc]

/-- **The parts inside a part lie below it.** -/
theorem below_of_mem_open (hu : u ∈ p.open.2) : Below p.path u.path := by
  rcases open_cases p with ⟨items, -, hopen⟩ | ⟨entries, -, hopen⟩ | ⟨tag, rendering, -, -, hopen⟩ |
    hopen
  · rw [hopen] at hu
    obtain ⟨i, hi⟩ := List.getElem?_of_mem hu
    rw [getElem?_itemParts, Option.map_eq_some_iff] at hi
    obtain ⟨v, -, rfl⟩ := hi
    rw [itemPath_eq]
    exact below_append p.path (by simp [openers])
  · rw [hopen, entryParts_eq] at hu
    obtain ⟨entry, -, rfl⟩ := List.mem_map.1 hu
    rw [valuePath_eq]
    exact below_append p.path (by simp [openers])
  · rw [hopen] at hu
    obtain rfl := List.mem_singleton.1 hu
    rw [recordPath_eq]
    exact below_append p.path (by simp [openers])
  · rw [hopen] at hu
    cases hu

/-- And so do its findings. -/
theorem below_of_mem_findings {finding : String × Node} (h : finding ∈ p.open.1) :
    Below p.path finding.1 := by
  rcases open_cases p with ⟨items, -, hopen⟩ | ⟨entries, -, hopen⟩ | ⟨tag, rendering, -, -, hopen⟩ |
    hopen
  · rw [hopen] at h
    cases h
  · rw [hopen, entryParts_eq] at h
    obtain ⟨key, -, rfl⟩ := List.mem_map.1 h
    rw [keyPath_eq]
    exact below_append p.path (by simp [openers])
  · rw [hopen] at h
    cases h
  · rw [hopen] at h
    obtain rfl := List.mem_singleton.1 h
    exact .refl p.path

/-- Nothing inside a part lies below the path of one of its bad keys. -/
theorem finding_ne_of_below {finding : String × Node} (h : finding ∈ p.open.1) (hu : u ∈ p.open.2)
    (hx : Below u.path x) : finding.1 ≠ x := by
  rcases open_cases p with ⟨items, -, hopen⟩ | ⟨entries, -, hopen⟩ | ⟨tag, rendering, -, -, hopen⟩ |
    hopen
  · rw [hopen] at h
    cases h
  · rw [hopen, entryParts_eq] at h hu
    obtain ⟨key, -, rfl⟩ := List.mem_map.1 h
    obtain ⟨entry, -, rfl⟩ := List.mem_map.1 hu
    obtain ⟨s, hs, -⟩ := hx
    rintro rfl
    simp [keyPath_eq, valuePath_eq] at hs
  · rw [hopen] at h
    cases h
  · rw [hopen] at hu
    cases hu

/-! ## Clear keys -/

/-- **Clear keys of an object**: the bad ones show as different texts, and of
those over values that fail none goes on from another as a path does. -/
structure ClearKeys (encodes : Node → Bool) (entries : List (Key × Node)) : Prop where
  bad : ((badKeys [] entries).map Key.text).Nodup
  good : ∀ entry ∈ goodEntries [] entries, ∀ other ∈ goodEntries [] entries,
    encodes entry.2 = false → encodes other.2 = false →
      ¬ GoesOn entry.1.text.toList other.1.text.toList

/-- A part with clear keys; only objects have keys. -/
def Part.Clear (encodes : Node → Bool) (p : Part) : Prop :=
  ∀ entries, p.node = .object entries → ClearKeys encodes entries

/-- **The findings of a part with clear keys have different paths.** -/
theorem Part.Clear.nodup_findings (hclear : p.Clear encodes) : (p.open.1.map (·.1)).Nodup := by
  rcases open_cases p with ⟨items, -, hopen⟩ | ⟨entries, hnode, hopen⟩ |
    ⟨tag, rendering, -, -, hopen⟩ | hopen
  · rw [hopen]
    exact List.nodup_nil
  · have hinj : Function.Injective fun text => p.path ++ ("<key: " ++ text ++ ">") := by
      intro s t h
      simpa [← String.toList_inj] using h
    have hnodup := (hclear entries hnode).bad.map hinj
    rw [hopen, entryParts_eq]
    simpa [Function.comp_def, keyPath_eq] using hnodup
  · rw [hopen]
    exact List.nodup_nil
  · rw [hopen]
    exact List.nodup_singleton _

/-! ## Parts beside each other -/

/-- No digit is a closing bracket. -/
theorem bracket_notMem_repr (i : Nat) : ']' ∉ i.repr.toList := by
  intro h
  rw [Nat.toList_repr] at h
  exact absurd (Nat.isDigit_of_mem_toDigits (by decide) (by decide) h) (by decide)

/-- An index in brackets says where it ends. -/
theorem not_goesOn_index (i j : Nat) :
    ¬ GoesOn ("[" ++ i.repr ++ "]").toList ("[" ++ j.repr ++ "]").toList := by
  rintro ⟨c, -, cs, h⟩
  have hbracket : j.repr.toList ++ ']' :: [] = i.repr.toList ++ ']' :: c :: cs := by
    simpa using h.symm
  have hrest := ((List.append_cons_inj_of_notMem (bracket_notMem_repr j) List.not_mem_nil).1
    hbracket).2.2
  cases hrest

theorem index_eq_of_below {path : String} {i j : Nat} (hi : Below (itemPath path i) x)
    (hj : Below (itemPath path j) x) : i = j := by
  rw [itemPath_eq] at hi hj
  rcases goesOn_of_below hi hj with heq | hgoes | hgoes
  · have hdigits : Nat.toDigits 10 i = Nat.toDigits 10 j := by
      simpa [Nat.toList_repr] using heq
    rw [← Nat.ofDigitChars_toDigits (b := 10) (n := i) (by decide) (by decide), hdigits,
      Nat.ofDigitChars_toDigits (by decide) (by decide)]
  · exact absurd hgoes (not_goesOn_index i j)
  · exact absurd hgoes (not_goesOn_index j i)

theorem goesOn_of_dot {s t : String} (h : GoesOn ("." ++ s).toList ("." ++ t).toList) :
    GoesOn s.toList t.toList := by
  obtain ⟨c, hc, cs, h⟩ := h
  exact ⟨c, hc, cs, by simpa using h⟩

/-- **Below two parts beside each other, with faults in both, no path is the
same**, if the keys are clear. -/
theorem Part.Clear.index_eq (hclear : p.Clear encodes) {i j : Nat} (hi : p.open.2[i]? = some u)
    (hj : p.open.2[j]? = some w) (hu : encodes u.node = false) (hw : encodes w.node = false)
    (hx : Below u.path x) (hx' : Below w.path x) : i = j := by
  rcases open_cases p with ⟨items, -, hopen⟩ | ⟨entries, hnode, hopen⟩ |
    ⟨tag, rendering, -, -, hopen⟩ | hopen
  · rw [hopen] at hi hj
    rw [getElem?_itemParts, Option.map_eq_some_iff] at hi hj
    obtain ⟨v, -, rfl⟩ := hi
    obtain ⟨v', -, rfl⟩ := hj
    simpa using index_eq_of_below hx hx'
  · rw [hopen, entryParts_eq] at hi hj
    rw [List.getElem?_map, Option.map_eq_some_iff] at hi hj
    obtain ⟨entry, hentry, rfl⟩ := hi
    obtain ⟨other, hother, rfl⟩ := hj
    rw [valuePath_eq] at hx hx'
    have hgood := (hclear entries hnode).good
    have hmem := List.mem_of_getElem? hentry
    have hmem' := List.mem_of_getElem? hother
    rcases goesOn_of_below hx hx' with heq | hgoes | hgoes
    · -- different good keys have different names
      have htext : entry.1.text = other.1.text := by simpa [String.toList_inj] using heq
      have hlt : i < ((goodEntries [] entries).map (·.1.text)).length := by
        simpa using (List.getElem?_eq_some_iff.1 hentry).1
      refine (List.getElem?_inj hlt (nodup_goodEntries [] entries).1).1 ?_
      simp [hentry, hother, htext]
    · exact absurd (goesOn_of_dot hgoes) (hgood entry hmem other hmem' hu hw)
    · exact absurd (goesOn_of_dot hgoes) (hgood other hmem' entry hmem hw hu)
  · rw [hopen] at hi hj
    have hlt := (List.getElem?_eq_some_iff.1 hi).1
    have hlt' := (List.getElem?_eq_some_iff.1 hj).1
    simp only [List.length_singleton] at hlt hlt'
    omega
  · rw [hopen] at hi
    cases hi

end Diagnosis

end DocStore
