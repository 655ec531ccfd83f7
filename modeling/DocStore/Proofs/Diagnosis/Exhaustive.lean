import DocStore.Proofs.Diagnosis.Layers
import DocStore.Proofs.Diagnosis.Located
import DocStore.Proofs.Encoding.Acceptance
/-!
# Passing over what encodes loses nothing

A search passes over every part that encodes on its own. The exhaustive search goes into
every part, and asks only of leaves and of records at the limit whether they encode.
Under a stock encoder all that lies inside a part that encodes encodes too, a rendering
among it: it has one substitute less in front of it. So the parts that fail are the same
in each layer of both searches, and in the same order (`layers_eq_exhaustive`), and
nothing else is found.
-/

namespace DocStore

namespace Diagnosis

/-- **Looks at a part and goes into it, whether it encodes or not.** A record is replaced
as long as the limit allows, an array gives its elements, and an object its bad keys and
the values under its good ones; anything else is a finding if it does not encode. -/
def Part.lookInside (encodes : Node → Bool) (p : Part) : List (String × Node) × List Part :=
  match p.node with
  | .record tag rendering =>
    if p.replaced < Encoder.chainLimit then
      ([], [⟨Node.rendered tag rendering, recordPath p.path tag, p.replaced + 1⟩])
    else (if encodes p.node then [] else [(p.path, p.node)], [])
  | .array items => ([], itemParts p.path 0 items)
  | .object entries => entryParts p.path [] entries
  | leaf => (if encodes leaf then [] else [(p.path, leaf)], [])

/-- **The exhaustive search of a node**, run for as many visits as there are positions. -/
def exhaustive (encodes : Node → Bool) (n : Node) : Search :=
  (Search.start n).runBy (Part.lookInside encodes) (positions 0 n)

variable {encodes : Node → Bool} {e : Encoder} {budget : Nat} {p u : Part} {v : Node}

/-! ## One part -/

/-- A part that does not encode is opened by either search. -/
theorem lookInside_of_fails (h : encodes p.node = false) : p.lookInside encodes = p.open := by
  obtain ⟨node, path, replaced⟩ := p
  cases node with
  | record tag rendering =>
    by_cases hlimit : Encoder.chainLimit ≤ replaced
    · simp [Part.lookInside, Part.open, hlimit, Nat.not_lt.2 hlimit, h]
    · simp [Part.lookInside, Part.open, hlimit, Nat.not_le.1 hlimit]
  | array _ | object _ => rfl
  | _ => simp [Part.lookInside, Part.open, h]

/-- The exhaustive search comes to all that is inside a part. -/
theorem lookInside_inside (encodes : Node → Bool) (p : Part) :
    (p.lookInside encodes).2 = p.open.2 := by
  obtain ⟨node, path, replaced⟩ := p
  cases node with
  | record tag rendering =>
    by_cases hlimit : Encoder.chainLimit ≤ replaced
    · simp [Part.lookInside, Part.open, hlimit, Nat.not_lt.2 hlimit]
    · simp [Part.lookInside, Part.open, hlimit, Nat.not_le.1 hlimit]
  | _ => rfl

/-- **Where nothing encodes, a search opens every part.** -/
theorem look_never (p : Part) : p.look (fun _ => false) = p.open := look_of_fails rfl

theorem weights_lookInside_lt (encodes : Node → Bool) (p : Part) :
    weights (p.lookInside encodes).2 < p.weight := by
  have hopen : weights (p.look fun _ => false).2 < p.weight := weights_look_lt p
  rwa [lookInside_inside, ← look_never]

/-! ## What is inside a part that encodes -/

/-- Keys with names of their own are no findings. -/
theorem entryParts_of_hasNames {path : String} {taken : List String}
    {entries : List (Key × Node)} (h : Encoder.HasNames taken entries) :
    (entryParts path taken entries).1 = [] := by
  induction entries generalizing taken with
  | nil => rfl
  | cons entry rest ih =>
    obtain ⟨name, hname, hfree, hrest⟩ := h
    rw [entryParts_of_good hname hfree, ih hrest]

/-- **A part that encodes has no findings, and all that is inside it encodes.** -/
theorem encodes_inside (he : e.Stock) (h : e.Encodes p.node) (haccepted : encodes p.node = true) :
    (p.lookInside encodes).1 = [] ∧ ∀ u ∈ (p.lookInside encodes).2, e.Encodes u.node := by
  obtain ⟨node, path, replaced⟩ := p
  cases node with
  | array items =>
    exact ⟨rfl, fun u hu => Encoder.encodes_array_iff.1 h _ (node_mem_of_mem_itemParts hu)⟩
  | object entries =>
    obtain ⟨hnames, hvalues⟩ := Encoder.encodes_object_iff.1 h
    refine ⟨entryParts_of_hasNames hnames, fun u hu => ?_⟩
    obtain ⟨entry, hentry, hnode⟩ := exists_mem_of_mem_entryParts hu
    exact hnode ▸ hvalues entry hentry
  | record tag rendering =>
    simp only [Part.lookInside]
    split
    · refine ⟨rfl, fun u hu => ?_⟩
      obtain rfl := List.mem_singleton.1 hu
      obtain ⟨substitute, hsubstitute, hencodes⟩ := Encoder.encodes_substitute rfl h
      rw [Encoder.fallback_record (he.through hsubstitute)] at hsubstitute
      exact Option.some.inj hsubstitute ▸ hencodes
    · simp
  | _ => simp [Part.lookInside, haccepted]

/-! ## Layer by layer -/

/-- The parts of a layer that do not encode. -/
def failing (encodes : Node → Bool) (layer : List Part) : List Part :=
  layer.filter fun p => !encodes p.node

/-- **A search sees the parts of a layer that fail**, and opens them. -/
theorem flatMap_look (encodes : Node → Bool) (layer : List Part) :
    (layer.flatMap fun p => (p.look encodes).1) =
        (failing encodes layer).flatMap (fun p => p.open.1) ∧
      (layer.flatMap fun p => (p.look encodes).2) =
        (failing encodes layer).flatMap fun p => p.open.2 := by
  induction layer with
  | nil => exact ⟨rfl, rfl⟩
  | cons p rest ih =>
    cases haccepted : encodes p.node with
    | true => simpa [failing, look_of_encodes haccepted, haccepted] using ih
    | false => simpa [failing, look_of_fails haccepted, haccepted] using ih

/-- **So does the exhaustive search**, and of what it comes to besides nothing fails. -/
theorem flatMap_lookInside {layer : List Part}
    (hinside : ∀ p ∈ layer, encodes p.node = true → (p.lookInside encodes).1 = [] ∧
      ∀ u ∈ (p.lookInside encodes).2, encodes u.node = true) :
    (layer.flatMap fun p => (p.lookInside encodes).1) =
        (failing encodes layer).flatMap (fun p => p.open.1) ∧
      failing encodes (layer.flatMap fun p => (p.lookInside encodes).2) =
        failing encodes ((failing encodes layer).flatMap fun p => p.open.2) := by
  induction layer with
  | nil => exact ⟨rfl, rfl⟩
  | cons p rest ih =>
    obtain ⟨hp, hrest⟩ := List.forall_mem_cons.1 hinside
    obtain ⟨hfindings, hparts⟩ := ih hrest
    cases haccepted : encodes p.node with
    | true =>
      obtain ⟨hnone, hall⟩ := hp haccepted
      have hencodes : failing encodes (p.lookInside encodes).2 = [] :=
        List.filter_eq_nil_iff.2 fun u hu => by simp [hall u hu]
      have hskip : failing encodes (p :: rest) = failing encodes rest := by
        simp [failing, haccepted]
      rw [hskip, List.flatMap_cons, List.flatMap_cons, hnone, List.nil_append, ← hparts]
      refine ⟨hfindings, ?_⟩
      rw [failing, List.filter_append]
      exact congrArg (· ++ _) hencodes
    | false =>
      have hkeep : failing encodes (p :: rest) = p :: failing encodes rest := by
        simp [failing, haccepted]
      rw [hkeep, List.flatMap_cons, List.flatMap_cons, List.flatMap_cons, List.flatMap_cons,
        lookInside_of_fails haccepted, hfindings]
      refine ⟨rfl, ?_⟩
      rw [failing, failing, List.filter_append, List.filter_append]
      exact congrArg (_ ++ ·) hparts

/-- **Layers in which the same parts fail have the same findings**, however deep, where
all that is inside what encodes does too. -/
theorem layers_eq_exhaustive {root : Part}
    (hinside : ∀ p, Reaches (fun _ => false) root p → encodes p.node = true →
      (p.lookInside encodes).1 = [] ∧ ∀ u ∈ (p.lookInside encodes).2, encodes u.node = true)
    (depths : Nat) {layer layer' : List Part}
    (hreached : ∀ p ∈ layer', Reaches (fun _ => false) root p)
    (hsame : failing encodes layer = failing encodes layer') :
    layers (Part.look encodes) depths layer = layers (Part.lookInside encodes) depths layer' := by
  -- the layers themselves differ, by parts that encode; what is kept equal is what fails
  induction depths generalizing layer layer' with
  | zero => rfl
  | succ depths ih =>
    obtain ⟨hfindings, hparts⟩ := flatMap_look encodes layer
    obtain ⟨hfindings', hparts'⟩ :=
      flatMap_lookInside fun p hp => hinside p (hreached p hp)
    rw [layers, layers, hfindings, hfindings', hsame, hparts]
    refine congrArg (_ ++ ·) (ih (fun u hu => ?_) (by rw [hparts', hsame]))
    obtain ⟨p, hp, hu⟩ := List.mem_flatMap.1 hu
    refine (hreached p hp).inside ?_
    rwa [look_never, ← lookInside_inside encodes]

/-! ## The diagnosis -/

/-- **The diagnosis finds all that the exhaustive search finds**, with the same values
and in the same order, under every stock encoder. The exhaustive search leaves no part
waiting; and no attempt to encode any of its parts runs out of a budget from the height
of the node on. -/
theorem diagnose_eq_exhaustive (e : Encoder) (he : e.Stock) (v : Node) (budget : Nat)
    (hbudget : v.height ≤ budget) :
    (∀ q, Reaches (fun _ => false) (.root v) q → (e.toJson budget q.node).isSome) ∧
      (exhaustive (e.accepts budget) v).waiting = [] ∧
      e.diagnose budget v = (exhaustive (e.accepts budget) v).found := by
  have hreturns : ∀ q, Reaches (fun _ => false) (.root v) q → (e.toJson budget q.node).isSome :=
    fun q hq => he.isSome_toJson (Nat.le_trans hq.height_le hbudget)
  have hinside : ∀ p, Reaches (fun _ => false) (.root v) p → e.accepts budget p.node = true →
      (p.lookInside (e.accepts budget)).1 = [] ∧
        ∀ u ∈ (p.lookInside (e.accepts budget)).2, e.accepts budget u.node = true := by
    intro p hp haccepted
    have hencodes := (encodes_iff_accepts (hreturns p hp)).2 haccepted
    obtain ⟨hnone, hall⟩ := encodes_inside he hencodes haccepted
    refine ⟨hnone, fun u hu => ?_⟩
    have hu' : u ∈ (p.look fun _ => false).2 := by
      rwa [look_never, ← lookInside_inside (e.accepts budget)]
    exact (encodes_iff_accepts (hreturns u (hp.inside hu'))).1 (hall u hu)
  have hweights : weights [Part.root v] = positions 0 v := by simp [weights, Part.weight, Part.root]
  have hexhaustive : exhaustive (e.accepts budget) v =
      ⟨[], Report.insertAll (layers (Part.lookInside (e.accepts budget)) (positions 0 v)
        [.root v]) []⟩ :=
    runBy_eq (weights_lookInside_lt _) (Nat.le_of_eq hweights) (Nat.le_of_eq hweights) []
  have hsearch : e.diagnose budget v =
      Report.insertAll (layers (Part.look (e.accepts budget)) (positions 0 v) [.root v]) [] := by
    rw [Encoder.diagnose, report, run_eq_runBy, Search.start,
      runBy_eq weights_look_lt (Nat.le_of_eq hweights) (Nat.le_of_eq hweights)]
  refine ⟨hreturns, by rw [hexhaustive], ?_⟩
  have hroot : ∀ p ∈ [Part.root v], Reaches (fun _ => false) (.root v) p := by
    intro p hp
    obtain rfl := List.mem_singleton.1 hp
    exact .self
  rw [hsearch, hexhaustive, layers_eq_exhaustive hinside (positions 0 v) hroot rfl]

/-- Records in a row with null behind them, and a record that renders to an object with
bytes in it and a name that comes twice. -/
def rowBesideBytes : Node :=
  .array [inRecords 33 .null, inRecords 1 (.object [(.string "s", .set []),
    (.string "b", .bytes []), (.string "s", .null)])]

/-- The exhaustive search goes on to the last record of the row, which encodes, and into
the set, which has an array for its substitute. -/
theorem diagnose_eq_exhaustive_rowBesideBytes :
    rowBesideBytes.height ≤ 35 ∧
      (exhaustive (Encoder.standard.accepts 35) rowBesideBytes).found =
        [("$[1](R: 0)<key: s>", .string "s"), ("$[1](R: 0).b", .bytes [])] := by
  have hheight : rowBesideBytes.height ≤ 35 := by decide
  have hsame := (diagnose_eq_exhaustive .standard .standard rowBesideBytes 35 hheight).2.2
  exact ⟨hheight, hsame.symm.trans rfl⟩

end Diagnosis

end DocStore
