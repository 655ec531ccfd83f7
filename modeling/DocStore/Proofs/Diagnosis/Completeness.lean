import DocStore.Proofs.Diagnosis.Pruning
/-!
# The diagnosis is complete and sound

With what the diagnosis finds cut out, a node encodes; and what it finds keeps
the node from encoding. Two traversals meet here: encoding goes in depth and
stops at the first fault, the search goes level by level and passes over what
encodes. Paths of different parts may be the same text; the search finds more
under such a path, never less.
-/

namespace DocStore

namespace Diagnosis

variable {e : Encoder} {budget : Nat} {v : Node} {root p q : Part}

theorem accepts_iff {n : Node} :
    e.accepts budget n = true ↔ ∃ w, e.toJson budget n = some (.ok w) := by
  rw [Encoder.accepts]
  split
  next w h => exact iff_of_true rfl ⟨w, h⟩
  next h =>
    refine iff_of_false Bool.false_ne_true ?_
    rintro ⟨w, hw⟩
    exact h w hw

/-! ## Bad keys -/

/-- **Why a key is bad**: it has no name, or the name of an earlier good key. -/
def BadKey (before : List (Key × Node)) (key : Key) : Prop :=
  (∃ fault, key.name = .error fault) ∨
  ∃ name first good rest, key.name = .ok name ∧ before = first ++ good :: rest ∧
    good.1.name = .ok name ∧ ∀ entry ∈ first, entry.1.name ≠ .ok name

/-- A key whose name is among those of earlier entries. -/
theorem badKey_of_mem {before : List (Key × Node)} {key : Key} {name : String}
    (hname : key.name = .ok name) (h : ∃ entry ∈ before, entry.1.name = .ok name) :
    BadKey before key := by
  induction before with
  | nil =>
    obtain ⟨entry, hentry, -⟩ := h
    cases hentry
  | cons entry rest ih =>
    by_cases hentry : entry.1.name = .ok name
    · exact Or.inr ⟨name, [], entry, rest, hname, rfl, hentry, by simp⟩
    · have hrest : ∃ other ∈ rest, other.1.name = .ok name := by
        obtain ⟨other, hother, hothername⟩ := h
        rcases List.mem_cons.1 hother with rfl | hother
        · exact absurd hothername hentry
        · exact ⟨other, hother, hothername⟩
      rcases ih hrest with hfault | ⟨name', first, good, after, hname', rfl, hgood, hfirst⟩
      · exact Or.inl hfault
      · obtain rfl : name' = name := Except.ok.inj (hname'.symm.trans hname)
        exact Or.inr ⟨name', entry :: first, good, after, hname, rfl, hgood,
          List.forall_mem_cons.2 ⟨hentry, hfirst⟩⟩

/-- Where the names taken are those of earlier entries, a bad key is one of
two kinds. -/
theorem badKey_of_bad {before : List (Key × Node)} {taken : List String} {key : Key}
    (htaken : ∀ name ∈ taken, ∃ entry ∈ before, entry.1.name = .ok name)
    (hbad : ∀ name, key.name = .ok name → name ∈ taken) : BadKey before key := by
  cases hname : key.name with
  | error fault => exact Or.inl ⟨fault, hname⟩
  | ok name => exact badKey_of_mem hname (htaken name (hbad name hname))

/-- **Every finding among entries is a bad key.** The names taken are those of
entries in front. -/
theorem badKey_of_mem_entryParts {path : String} {taken : List String}
    {entries : List (Key × Node)} {finding : String × Node} (front : List (Key × Node))
    (htaken : ∀ name ∈ taken, ∃ entry ∈ front, entry.1.name = .ok name)
    (h : finding ∈ (entryParts path taken entries).1) :
    ∃ before key u after, entries = before ++ (key, u) :: after ∧
      finding = (keyPath path key, key.toNode) ∧ BadKey (front ++ before) key := by
  induction entries generalizing taken front with
  | nil => cases h
  | cons entry rest ih =>
    obtain ⟨key, u⟩ := entry
    -- the entry at hand is in front of all others
    have hrest : ∀ taken',
        (∀ name ∈ taken', ∃ entry ∈ front ++ [(key, u)], entry.1.name = .ok name) →
        finding ∈ (entryParts path taken' rest).1 →
        ∃ before key' u' after, (key, u) :: rest = before ++ (key', u') :: after ∧
          finding = (keyPath path key', key'.toNode) ∧ BadKey (front ++ before) key' := by
      intro taken' htaken' hfinding
      obtain ⟨before, key', u', after, rfl, hfinding, hbad⟩ :=
        ih (front ++ [(key, u)]) htaken' hfinding
      refine ⟨(key, u) :: before, key', u', after, rfl, hfinding, ?_⟩
      rwa [List.append_assoc] at hbad
    have hmore : ∀ name ∈ taken, ∃ entry ∈ front ++ [(key, u)], entry.1.name = .ok name := by
      intro name hname
      obtain ⟨entry, hentry, hentryname⟩ := htaken name hname
      exact ⟨entry, List.mem_append_left _ hentry, hentryname⟩
    rcases good_or_bad taken key with ⟨name, hname, hfree⟩ | hbad
    · rw [entryParts_of_good hname hfree] at h
      refine hrest (name :: taken) (List.forall_mem_cons.2 ⟨?_, hmore⟩) h
      exact ⟨(key, u), List.mem_append_right _ (List.mem_singleton.2 rfl), hname⟩
    · rw [entryParts_of_bad hbad] at h
      rcases List.mem_cons.1 h with rfl | h
      · refine ⟨[], key, u, rest, rfl, rfl, ?_⟩
        rw [List.append_nil]
        exact badKey_of_bad htaken hbad
      · exact hrest taken hmore h

/-! ## Parts of a node without records -/

theorem node_mem_of_mem_itemParts {path : String} {index : Nat} {items : List Node}
    (h : p ∈ itemParts path index items) : p.node ∈ items := by
  induction items generalizing index with
  | nil => cases h
  | cons u rest ih =>
    rcases List.mem_cons.1 h with rfl | h
    · exact List.mem_cons_self ..
    · exact List.mem_cons_of_mem u (ih h)

theorem exists_mem_of_mem_entryParts {path : String} {taken : List String}
    {entries : List (Key × Node)} (h : p ∈ (entryParts path taken entries).2) :
    ∃ entry ∈ entries, entry.2 = p.node := by
  induction entries generalizing taken with
  | nil => cases h
  | cons entry rest ih =>
    obtain ⟨key, u⟩ := entry
    have hrest : ∀ taken', p ∈ (entryParts path taken' rest).2 →
        ∃ entry ∈ (key, u) :: rest, entry.2 = p.node := by
      intro taken' hp
      obtain ⟨entry, hentry, hnode⟩ := ih hp
      exact ⟨entry, List.mem_cons_of_mem _ hentry, hnode⟩
    rcases good_or_bad taken key with ⟨name, hname, hfree⟩ | hbad
    · rw [entryParts_of_good hname hfree] at h
      rcases List.mem_cons.1 h with rfl | h
      · exact ⟨(key, u), List.mem_cons_self .., rfl⟩
      · exact hrest (name :: taken) h
    · rw [entryParts_of_bad hbad] at h
      exact hrest taken h

/-- **Where no record is in the way, a search stays within the node.** -/
theorem within_of_reaches {encodes : Node → Bool}
    (hplain : ∀ m, v.Within m → ∀ tag rendering, m ≠ .record tag rendering)
    (h : Reaches encodes (.root v) q) : v.Within q.node := by
  induction h with
  | self => exact .self
  | @inside q u _ hu ih =>
    rw [Part.look] at hu
    split at hu
    · cases hu
    · obtain ⟨node, path, replaced⟩ := q
      cases node with
      | array items => exact ih.item (node_mem_of_mem_itemParts hu)
      | object entries =>
        obtain ⟨entry, hentry, hnode⟩ := exists_mem_of_mem_entryParts hu
        exact hnode ▸ ih.value hentry
      | record tag rendering => exact absurd rfl (hplain _ ih tag rendering)
      | _ => cases hu

/-! ## A budget for all parts -/

/-- What lies in a node is the node, or lies in one of its elements or values. -/
theorem within_cases {m : Node} (h : v.Within m) :
    m = v ∨ (∃ items u, v = .array items ∧ u ∈ items ∧ u.Within m) ∨
      ∃ entries entry, v = .object entries ∧ entry ∈ entries ∧ entry.2.Within m := by
  induction h with
  | self => exact Or.inl rfl
  | @item items u _ hu ih =>
    rcases ih with rfl | ⟨items', w, rfl, hw, hwithin⟩ | ⟨entries', entry, rfl, hentry, hwithin⟩
    · exact Or.inr (Or.inl ⟨items, u, rfl, hu, .self⟩)
    · exact Or.inr (Or.inl ⟨items', w, rfl, hw, hwithin.item hu⟩)
    · exact Or.inr (Or.inr ⟨entries', entry, rfl, hentry, hwithin.item hu⟩)
  | @value entries entry _ hentry ih =>
    rcases ih with rfl | ⟨items', w, rfl, hw, hwithin⟩ | ⟨entries', entry', rfl, hentry', hwithin⟩
    · exact Or.inr (Or.inr ⟨entries, entry, rfl, hentry, .self⟩)
    · exact Or.inr (Or.inl ⟨items', w, rfl, hw, hwithin.value hentry⟩)
    · exact Or.inr (Or.inr ⟨entries', entry', rfl, hentry', hwithin.value hentry⟩)

/-- **Encoding returns** on a node and all that lies in it, within the budget. -/
def Returns (e : Encoder) (budget : Nat) (v : Node) : Prop :=
  ∀ m, v.Within m → (e.toJson budget m).isSome

theorem Returns.mono {budget' : Nat} (h : Returns e budget v) (hle : budget ≤ budget') :
    Returns e budget' v :=
  fun m hm => Encoder.isSome_of_le hle (h m hm)

mutual

/-- **If encoding returns on each part, it returns on all within one budget.** -/
theorem exists_returns (v : Node)
    (h : ∀ m, v.Within m → ∃ budget, (e.toJson budget m).isSome) :
    ∃ budget, Returns e budget v := by
  obtain ⟨budget, hself⟩ := h v .self
  match v with
  | .array items =>
    obtain ⟨budget', hitems⟩ := exists_returns_items items fun u hu m hm =>
      h m (.trans (.item .self hu) hm)
    refine ⟨max budget budget', fun m hm => ?_⟩
    rcases within_cases hm with rfl | ⟨items', u, hnode, hu, hwithin⟩ | ⟨entries, entry, hnode, -⟩
    · exact Encoder.isSome_of_le (Nat.le_max_left ..) hself
    · obtain rfl := Node.array.inj hnode
      exact Encoder.isSome_of_le (Nat.le_max_right ..) (hitems u hu m hwithin)
    · cases hnode
  | .object entries =>
    obtain ⟨budget', hentries⟩ := exists_returns_entries entries fun entry hentry m hm =>
      h m (.trans (.value .self hentry) hm)
    refine ⟨max budget budget', fun m hm => ?_⟩
    rcases within_cases hm with
      rfl | ⟨items, u, hnode, -⟩ | ⟨entries', entry, hnode, hentry, hwithin⟩
    · exact Encoder.isSome_of_le (Nat.le_max_left ..) hself
    · cases hnode
    · obtain rfl := Node.object.inj hnode
      exact Encoder.isSome_of_le (Nat.le_max_right ..) (hentries entry hentry m hwithin)
  | .null | .bool _ | .int _ | .uint _ | .float _ | .string _ | .set _ | .timestamp _
  | .duration _ | .bytes _ | .record _ _ | .foreign _ _ =>
    refine ⟨budget, fun m hm => ?_⟩
    rcases within_cases hm with rfl | ⟨items, u, hnode, -⟩ | ⟨entries, entry, hnode, -⟩
    · exact hself
    · cases hnode
    · cases hnode

theorem exists_returns_items (items : List Node)
    (h : ∀ u ∈ items, ∀ m, u.Within m → ∃ budget, (e.toJson budget m).isSome) :
    ∃ budget, ∀ u ∈ items, Returns e budget u := by
  match items with
  | [] => exact ⟨0, by simp⟩
  | u :: rest =>
    obtain ⟨hu, hrest⟩ := List.forall_mem_cons.1 h
    obtain ⟨budget, hbudget⟩ := exists_returns u hu
    obtain ⟨budget', hbudget'⟩ := exists_returns_items rest hrest
    exact ⟨max budget budget', List.forall_mem_cons.2 ⟨hbudget.mono (Nat.le_max_left ..),
      fun w hw => (hbudget' w hw).mono (Nat.le_max_right ..)⟩⟩

theorem exists_returns_entries (entries : List (Key × Node))
    (h : ∀ entry ∈ entries, ∀ m, entry.2.Within m → ∃ budget, (e.toJson budget m).isSome) :
    ∃ budget, ∀ entry ∈ entries, Returns e budget entry.2 := by
  match entries with
  | [] => exact ⟨0, by simp⟩
  | (key, u) :: rest =>
    obtain ⟨hu, hrest⟩ := List.forall_mem_cons.1 h
    obtain ⟨budget, hbudget⟩ := exists_returns u hu
    obtain ⟨budget', hbudget'⟩ := exists_returns_entries rest hrest
    exact ⟨max budget budget', List.forall_mem_cons.2 ⟨hbudget.mono (Nat.le_max_left ..),
      fun w hw => (hbudget' w hw).mono (Nat.le_max_right ..)⟩⟩

end

/-! ## The diagnosis -/

/-- **Why a part adds a finding**: it is no container and does not encode on its
own, or it is an object with a bad key. -/
inductive Justified (e : Encoder) (budget : Nat) (q : Part) : String × Node → Prop
  | leaf (hitems : ∀ items, q.node ≠ .array items) (hentries : ∀ entries, q.node ≠ .object entries)
      (hfault : ∃ fault, e.toJson budget q.node = some (.error fault)) :
      Justified e budget q (q.path, q.node)
  | key {before after : List (Key × Node)} {key : Key} {u : Node}
      (hnode : q.node = .object (before ++ (key, u) :: after)) (hbad : BadKey before key) :
      Justified e budget q (keyPath q.path key, key.toNode)

theorem justified_of_mem_look {finding : String × Node} (hsome : (e.toJson budget q.node).isSome)
    (hplain : ∀ tag rendering, q.node ≠ .record tag rendering)
    (h : finding ∈ (q.look (e.accepts budget)).1) : Justified e budget q finding := by
  rw [Part.look] at h
  split at h
  · cases h
  next haccepted =>
    obtain ⟨result, hresult⟩ := Option.isSome_iff_exists.1 hsome
    have hfault : ∃ fault, e.toJson budget q.node = some (.error fault) := by
      cases result with
      | ok w => exact absurd (accepts_iff.2 ⟨w, hresult⟩) haccepted
      | error fault => exact ⟨fault, hresult⟩
    obtain ⟨node, path, replaced⟩ := q
    cases node with
    | array items => cases h
    | object entries =>
      obtain ⟨before, key, u, after, rfl, rfl, hbad⟩ :=
        badKey_of_mem_entryParts [] (by simp) h
      exact .key rfl hbad
    | record tag rendering => exact absurd rfl (hplain tag rendering)
    | _ =>
      obtain rfl := List.mem_singleton.1 h
      exact .leaf (by simp) (by simp) hfault

/-- **The diagnosis is complete and sound**, for an encoder on which encoding
returns and a node where no record is in the way. With the values under the
paths of the report made null and the entries of its bad keys dropped, the node
encodes. Whatever the search finds keeps a part from encoding, the report has
the path of it, and has nothing else. So it is empty exactly if the node
encodes. -/
theorem diagnose_complete_and_sound (e : Encoder) (v : Node)
    (hplain : ∀ m, v.Within m → ∀ tag rendering, m ≠ .record tag rendering)
    (hreturns : ∀ m, v.Within m → ∃ budget, (e.toJson budget m).isSome) :
    (∃ least, ∀ budget, least ≤ budget → Returns e budget v) ∧
    ∀ budget, Returns e budget v →
      e.Encodes (prune ((e.diagnose budget v).map (·.1)) "$" v) ∧
      (∀ finding ∈ e.diagnose budget v,
        ∃ q, Reaches (e.accepts budget) (.root v) q ∧ Justified e budget q finding) ∧
      (∀ q, Reaches (e.accepts budget) (.root v) q →
        ∀ finding ∈ (q.look (e.accepts budget)).1,
          Justified e budget q finding ∧ finding.1 ∈ (e.diagnose budget v).map (·.1)) ∧
      (e.diagnose budget v = [] ↔ ∃ w, e.toJson budget v = some (.ok w)) := by
  refine ⟨?_, fun budget hbudget => ?_⟩
  · obtain ⟨least, hleast⟩ := exists_returns v hreturns
    exact ⟨least, fun budget hle => hleast.mono hle⟩
  have hmem : ∀ path, path ∈ (e.diagnose budget v).map (·.1) ↔
      ∃ q, Reaches (e.accepts budget) (.root v) q ∧
        Report.Has (q.look (e.accepts budget)).1 path := by
    intro path
    rw [← has_report_iff]
    simp [Report.Has, Encoder.diagnose]
  have hjustified : ∀ q, Reaches (e.accepts budget) (.root v) q →
      ∀ finding ∈ (q.look (e.accepts budget)).1, Justified e budget q finding := by
    intro q hq finding hfinding
    have hwithin := within_of_reaches hplain hq
    exact justified_of_mem_look (hbudget _ hwithin) (hplain _ hwithin) hfinding
  -- colliding paths only add to what is cut out
  have hexhausts : Exhausts e (e.accepts budget) (.root v) ((e.diagnose budget v).map (·.1)) := by
    refine ⟨fun q hq path hpath => (hmem path).2 ⟨q, hq, hpath⟩, fun m hm => ?_⟩
    obtain ⟨w, hw⟩ := accepts_iff.1 hm
    exact ⟨budget, w, hw⟩
  have hcomplete := encodes_prune_of_reaches hexhausts "$" 0 v .self hplain
  refine ⟨hcomplete, fun finding hfinding => ?_, fun q hq finding hfinding => ?_, ?_, ?_⟩
  · obtain ⟨path, value⟩ := finding
    obtain ⟨q, hq, hlook⟩ := exists_of_mem_report hfinding
    exact ⟨q, hq, hjustified q hq _ hlook⟩
  · exact ⟨hjustified q hq finding hfinding,
      (hmem finding.1).2 ⟨q, hq, finding.2, hfinding⟩⟩
  · intro hempty
    -- with nothing to cut out, completeness is about the node itself
    rw [hempty, List.map_nil, prune_nil] at hcomplete
    obtain ⟨result, hresult⟩ := Option.isSome_iff_exists.1 (hbudget v .self)
    obtain ⟨w, rfl⟩ := (Encoder.encodes_iff_of_toJson hresult).1 hcomplete
    exact ⟨w, hresult⟩
  · intro haccepts
    have hlook : (Part.root v).look (e.accepts budget) = ([], []) :=
      if_pos (accepts_iff.2 haccepts)
    -- the search ends at the whole node
    have hnone : ∀ path, path ∉ (e.diagnose budget v).map (·.1) := by
      intro path hpath
      obtain ⟨q, hq, value, hvalue⟩ := (hmem path).1 hpath
      rcases hq.cases_head with rfl | ⟨u, hu, -⟩
      · rw [hlook] at hvalue
        cases hvalue
      · rw [hlook] at hu
        cases hu
    exact List.map_eq_nil_iff.1 (List.eq_nil_iff_forall_not_mem.2 hnone)

/-- A set in a list, under the encoder without substitutes. -/
theorem diagnose_complete_and_sound_set :
    ∃ budget, Returns Encoder.strict budget (.array [.set []]) ∧
      Encoder.strict.Encodes
        (prune ((Encoder.strict.diagnose budget (.array [.set []])).map (·.1)) "$"
          (.array [.set []])) := by
  have hparts : ∀ m, (Node.array [.set []]).Within m → m = .array [.set []] ∨ m = .set [] := by
    intro m hm
    rcases within_cases hm with rfl | ⟨items, u, hnode, hu, hwithin⟩ | ⟨entries, entry, hnode, -⟩
    · exact Or.inl rfl
    · obtain rfl := Node.array.inj hnode
      obtain rfl := List.mem_singleton.1 hu
      rcases within_cases hwithin with rfl | ⟨items, u, hnode, -⟩ | ⟨entries, entry, hnode, -⟩
      · exact Or.inr rfl
      · cases hnode
      · cases hnode
    · cases hnode
  obtain ⟨⟨least, hleast⟩, hall⟩ := diagnose_complete_and_sound Encoder.strict (.array [.set []])
    (fun m hm => by rcases hparts m hm with rfl | rfl <;> simp)
    (fun m hm => by
      rcases hparts m hm with rfl | rfl
      · exact ⟨2, rfl⟩
      · exact ⟨1, rfl⟩)
  exact ⟨least, hleast least (Nat.le_refl _), (hall least (hleast least (Nat.le_refl _))).1⟩

end Diagnosis

end DocStore
