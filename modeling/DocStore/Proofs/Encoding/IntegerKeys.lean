import DocStore.Capture.Capture
import DocStore.Proofs.Encoding.Acceptance
import Std.Data.String.ToInt
/-!
# Integers as keys

An integer within 64 bits is captured in the first of the two integer forms that has it,
whatever kind it is described by, and as a key it is named by its decimal text. So two
keys that are integers share a name only if they are the same integer, and a map under
different integers encodes as soon as its values do, entry by entry
(`encode_integer_keys`). Which key belongs to which value is read off the calls
(`MapCall.paired`): a key that another one follows before any value makes no entry.
-/

namespace DocStore

/-! ## The integer that a key is -/

/-- **The integer that a key is**, in either form. -/
def Key.number? : Key → Option Int
  | .int i => some i.toInt
  | .uint u => some u.toNat
  | _ => none

/-- **The integer that a description says**, of whichever kind, however often it is wrapped
without a trace. -/
def Program.number? : Program → Option Int
  | .integer _ n => some n
  | .present inner => inner.number?
  | .wrapper _ inner => inner.number?
  | _ => none

section

variable {k l : Key} {m n : Int}

/-- **An integer is named by its decimal text**, whichever form it has. -/
theorem Key.name_of_number? (h : k.number? = some n) : k.name = .ok n.repr := by
  cases k with
  | int i => cases h; rfl
  | uint u => cases h; rfl
  | _ => cases h

/-- **Keys that are integers share a name only if they are the same integer.** -/
theorem Key.name_eq_name_iff (hk : k.number? = some m) (hl : l.number? = some n) :
    k.name = l.name ↔ m = n := by
  rw [Key.name_of_number? hk, Key.name_of_number? hl, Except.ok.injEq]
  exact ⟨fun h => Int.repr_injective h, fun h => congrArg Int.repr h⟩

/-- **An integer within 64 bits is captured as itself**, whatever its kind: signed below
`2 ^ 63`, and unsigned from there on. -/
theorem IntKind.number?_toNode (kind : IntKind) (lower : -0x8000000000000000 ≤ n)
    (upper : n < 0x10000000000000000) : (kind.toNode n).toKey.number? = some n := by
  rw [IntKind.toNode, Node.ofInt?]
  by_cases hsigned : n < 0x8000000000000000
  · have hvalue : (Int64.ofInt n).toInt = n := Int64.toInt_ofInt_of_le lower (by omega)
    rw [if_pos (by simp [lower, hsigned])]
    exact congrArg some hvalue
  · have hpositive : 0 ≤ n := by omega
    have hvalue : ((UInt64.ofNat n.toNat).toNat : Int) = n := by
      rw [UInt64.toNat_ofNat']
      omega
    rw [if_neg (by simp [hsigned]), if_pos (by simp [hpositive, upper])]
    exact congrArg some hvalue

/-- **A key that says an integer within 64 bits is that integer.** -/
theorem Program.number?_capture {p : Program} {v : Node} (h : p.number? = some n)
    (lower : -0x8000000000000000 ≤ n) (upper : n < 0x10000000000000000)
    (hcapture : p.capture = .ok v) : v.toKey.number? = some n := by
  fun_induction Program.number? p with
  | case1 kind i =>
    obtain rfl := Option.some.inj h
    obtain rfl := Except.ok.inj hcapture
    exact kind.number?_toNode lower upper
  | case2 inner ih => exact ih h hcapture
  | case3 _ inner ih => exact ih h hcapture
  | case4 => cases h

end

/-! ## The entries that calls describe -/

/-- A capture that goes on after another was a success twice. -/
theorem Program.bind_eq_ok {α β : Type} {x : Except EncodeError α} {f : α → Except EncodeError β}
    {b : β} : x >>= f = .ok b ↔ ∃ a, x = .ok a ∧ f a = .ok b := by
  cases x with
  | error fault => simp [bind, Except.bind]
  | ok a => simp [bind, Except.bind]

namespace MapCall

/-- **The keys and values that make entries**, one after the other: each value with the key
that waits for it, which is the most recent one. -/
def paired (waiting : Option Program) : List MapCall → List (Program × Program)
  | [] => []
  | .key q :: rest => paired (some q) rest
  | .value p :: rest =>
    match waiting with
    | some q => (q, p) :: paired none rest
    | none => paired none rest

/-- A map that is described entry by entry has these entries, whichever key waits in front
of them. -/
theorem paired_ofEntries (waiting : Option Program) (entries : List (Program × Program)) :
    paired waiting (ofEntries entries) = entries := by
  induction entries generalizing waiting with
  | nil => rfl
  | cons entry entries ih =>
    obtain ⟨q, p⟩ := entry
    have hcalls : ofEntries ((q, p) :: entries) = .key q :: .value p :: ofEntries entries := rfl
    rw [hcalls, paired, paired, ih]

/-- A description is captured as this key. -/
def CapturedAs (q : Program) (k : Key) : Prop := ∃ n, q.capture = .ok n ∧ n.toKey = k

/-- **Capture makes an entry of each pair**, in order. -/
theorem forall₂_paired {calls : List MapCall} {waiting : Option Program} {pending : Option Key}
    {entries : List (Key × Node)} (hwaiting : Option.Rel CapturedAs waiting pending)
    (h : Program.captureCalls pending calls = .ok entries) :
    List.Forall₂ (fun pair entry => CapturedAs pair.1 entry.1 ∧ pair.2.capture = .ok entry.2)
      (paired waiting calls) entries := by
  induction calls generalizing waiting pending entries with
  | nil =>
    cases h
    exact .nil
  | cons call rest ih =>
    cases call with
    | key q =>
      rw [Program.captureCalls] at h
      obtain ⟨n, hq, h⟩ := Program.bind_eq_ok.1 h
      exact ih (.some ⟨n, hq, rfl⟩) h
    | value p =>
      cases hwaiting with
      | none => cases h
      | some hkey =>
        rw [Program.captureCalls] at h
        obtain ⟨v, hp, h⟩ := Program.bind_eq_ok.1 h
        obtain ⟨others, hrest, h⟩ := Program.bind_eq_ok.1 h
        obtain rfl := Except.ok.inj h
        exact .cons ⟨hkey, hp⟩ (ih .none hrest)

/-- **An entry is under the integer that a key says**, and holds what its value is captured
as. -/
def NumberedAs (pair : Program × Program) (entry : Key × Node) : Prop :=
  (∃ n, pair.1.number? = some n ∧ entry.1.number? = some n) ∧ pair.2.capture = .ok entry.2

/-- **Keys that say integers within 64 bits make entries under these integers.** -/
theorem forall₂_numberedAs {calls : List MapCall} {entries : List (Key × Node)}
    (h : Program.captureCalls none calls = .ok entries)
    (hnumbers : ∀ pair ∈ paired none calls, ∃ n, pair.1.number? = some n ∧
      -0x8000000000000000 ≤ n ∧ n < 0x10000000000000000) :
    List.Forall₂ NumberedAs (paired none calls) entries := by
  refine ((List.forall₂_and_left _ _).2 ⟨hnumbers, forall₂_paired .none h⟩).imp ?_
  rintro pair entry ⟨⟨n, hn, lower, upper⟩, ⟨v, hkey, hentry⟩, hvalue⟩
  have hnumber := Program.number?_capture hn lower upper hkey
  rw [hentry] at hnumber
  exact ⟨⟨n, hn, hnumber⟩, hvalue⟩

end MapCall

/-! ## Objects under integers -/

namespace Encoder

variable {e : Encoder} {entries : List (Key × Node)}

/-- **Keys that are different integers have names of their own.** -/
theorem hasNames_of_numbers (hnumbers : ∀ entry ∈ entries, ∃ n, entry.1.number? = some n)
    (hdiffer : (entries.map fun entry => entry.1.number?).Nodup) : HasNames [] entries := by
  rw [List.Nodup, List.pairwise_map] at hdiffer
  refine hasNames_iff.2 ⟨fun entry hentry => ?_, by simp, ?_⟩
  · obtain ⟨n, hn⟩ := hnumbers entry hentry
    exact Key.valid_iff.2 ⟨n.repr, Key.name_of_number? hn⟩
  · refine hdiffer.imp_of_mem fun {entry other} hentry hother hne hsame => hne ?_
    obtain ⟨m, hm⟩ := hnumbers entry hentry
    obtain ⟨n, hn⟩ := hnumbers other hother
    rw [hm, hn, (Key.name_eq_name_iff hm hn).1 hsame]

/-- **An object under different integers encodes as soon as its values do.** -/
theorem exists_toJson_of_numbers (hnumbers : ∀ entry ∈ entries, ∃ n, entry.1.number? = some n)
    (hdiffer : (entries.map fun entry => entry.1.number?).Nodup)
    (hvalues : ∀ entry ∈ entries, e.Encodes entry.2) :
    ∃ budget members, e.toJson budget (.object entries) = some (.ok (.object members)) ∧
      List.Forall₂ (fun entry member =>
        entry.1.name = .ok member.1 ∧ e.toJson budget entry.2 = some (.ok member.2))
        entries members := by
  obtain ⟨budget, x, hx⟩ := encodes_object_iff.2 ⟨hasNames_of_numbers hnumbers hdiffer, hvalues⟩
  obtain ⟨members, rfl, hmembers⟩ := exists_members_of_toJson hx
  exact ⟨budget, members, hx, hmembers⟩

/-! ## Maps under integers -/

section

variable {α β γ : Type} {R : α → β → Prop} {S : β → γ → Prop} {as : List α} {bs : List β}
  {cs : List γ}

/-- Two correspondences one by one, after each other. -/
theorem forall₂_comp (h : List.Forall₂ R as bs) (h' : List.Forall₂ S bs cs) :
    List.Forall₂ (fun a c => ∃ b, R a b ∧ S b c) as cs := by
  induction h generalizing cs with
  | nil =>
    cases h'
    exact .nil
  | cons hab _ ih =>
    cases h' with
    | cons hbc hrest => exact .cons ⟨_, hab, hbc⟩ (ih hrest)

/-- In a correspondence one by one everything on the right stands for something. -/
theorem exists_mem_of_forall₂ (h : List.Forall₂ R as bs) {b : β} (hb : b ∈ bs) :
    ∃ a ∈ as, R a b := by
  induction h with
  | nil => cases hb
  | @cons a _ _ _ hab _ ih =>
    rcases List.mem_cons.1 hb with rfl | hb
    · exact ⟨a, List.mem_cons_self .., hab⟩
    · obtain ⟨a', ha', hrel⟩ := ih hb
      exact ⟨a', List.mem_cons_of_mem _ ha', hrel⟩

end

/-- **Integer keys never collide.** Keys that are integers, signed or unsigned, are named by
their decimal text and share a name only if they are the same integer. So a map that is
captured encodes if its keys are different integers within 64 bits, of whichever kinds they
are described, and its values encode; the object has one member for each entry, in order,
named by the decimal text of the key, with what the value encodes to. -/
theorem encode_integer_keys (e : Encoder) :
    (∀ (k l : Key) (m n : Int), k.number? = some m → l.number? = some n →
      k.name = .ok m.repr ∧ (k.name = l.name ↔ m = n)) ∧
    ∀ (announced : Option Nat) (calls : List MapCall) (node : Node),
      (Program.map announced calls).capture = .ok node →
      (∀ pair ∈ MapCall.paired none calls, ∃ n, pair.1.number? = some n ∧
        -0x8000000000000000 ≤ n ∧ n < 0x10000000000000000) →
      ((MapCall.paired none calls).map fun pair => pair.1.number?).Nodup →
      (∀ pair ∈ MapCall.paired none calls, ∀ v, pair.2.capture = .ok v → e.Encodes v) →
      ∃ budget members, e.toJson budget node = some (.ok (.object members)) ∧
        List.Forall₂ (fun pair member =>
          (∃ n, pair.1.number? = some n ∧ member.1 = n.repr) ∧
          ∃ v, pair.2.capture = .ok v ∧ e.toJson budget v = some (.ok member.2))
          (MapCall.paired none calls) members := by
  refine ⟨fun k l m n hk hl => ⟨Key.name_of_number? hk, Key.name_eq_name_iff hk hl⟩, ?_⟩
  intro announced calls node hcapture hnumbers hdiffer hvalues
  rw [Program.capture] at hcapture
  obtain ⟨entries, hcalls, hnode⟩ := Program.bind_eq_ok.1 hcapture
  obtain rfl : Node.object entries = node := Except.ok.inj hnode
  have hnumbered := MapCall.forall₂_numberedAs hcalls hnumbers
  have hkeys : ∀ entry ∈ entries, ∃ n, entry.1.number? = some n := by
    intro entry hentry
    obtain ⟨_, -, ⟨n, -, hn⟩, -⟩ := exists_mem_of_forall₂ hnumbered hentry
    exact ⟨n, hn⟩
  have hencodes : ∀ entry ∈ entries, e.Encodes entry.2 := by
    intro entry hentry
    obtain ⟨pair, hpair, -, hvalue⟩ := exists_mem_of_forall₂ hnumbered hentry
    exact hvalues pair hpair entry.2 hvalue
  -- the keys of the entries are the integers that were said, so they differ as these do
  have hsame : (MapCall.paired none calls).map (fun pair => pair.1.number?) =
      entries.map fun entry => entry.1.number? := by
    rw [← List.forall₂_eq_eq_eq, List.forall₂_map_left_iff, List.forall₂_map_right_iff]
    refine hnumbered.imp ?_
    rintro pair entry ⟨⟨n, hn, hn'⟩, -⟩
    exact hn.trans hn'.symm
  rw [hsame] at hdiffer
  obtain ⟨budget, members, hx, hmembers⟩ := exists_toJson_of_numbers hkeys hdiffer hencodes
  refine ⟨budget, members, hx, (forall₂_comp hnumbered hmembers).imp ?_⟩
  rintro pair member ⟨entry, ⟨⟨n, hn, hn'⟩, hvalue⟩, hname, hjson⟩
  have htext : member.1 = n.repr :=
    Except.ok.inj (hname.symm.trans (Key.name_of_number? hn'))
  exact ⟨⟨n, hn, htext⟩, entry.2, hvalue, hjson⟩

/-- Entries under integers of three kinds, two of them past the signed form. -/
def edgeNumbers : List (Program × Program) :=
  [(.integer (.unsigned .w64) 0x8000000000000000, .bytes [0x61]),
    (.present (.integer (.signed .w128) 0xFFFFFFFFFFFFFFFF), .list none [.unit]),
    (.wrapper "Id" (.integer (.signed .w64) (-0x8000000000000000)), .bool true)]

/-- A map of these entries, with one more key in front that no value uses. -/
def edgeCalls : List MapCall :=
  .key (.integer (.signed .w8) (-1)) :: MapCall.ofEntries edgeNumbers

/-- The three entries are under the decimal texts of their keys, in order, and the first
holds the description of its bytes. Seven is the same key in both forms. -/
theorem encode_integer_keys_edgeNumbers :
    (Key.int 7).name = (Key.uint 7).name ∧
      ∃ node budget y z, (Program.map none edgeCalls).capture = .ok node ∧
        extended.toJson budget node = some (.ok (.object [
          ("9223372036854775808",
            .object [("__type", .string "bytes"), ("repr", .string "b\"a\"")]),
          ("18446744073709551615", y), ("-9223372036854775808", z)])) := by
  obtain ⟨hnames, hmaps⟩ := encode_integer_keys extended
  have hseven : (Key.int 7).name = (Key.uint 7).name :=
    (hnames (.int 7) (.uint 7) 7 7 rfl rfl).2.2 rfl
  have hcapture : (Program.map none edgeCalls).capture =
      .ok (.object [(.uint 0x8000000000000000, .bytes [0x61]),
        (.uint 0xFFFFFFFFFFFFFFFF, .array [.null]), (.int (-0x8000000000000000), .bool true)]) :=
    rfl
  have hpaired : MapCall.paired none edgeCalls = edgeNumbers := MapCall.paired_ofEntries _ _
  have hbytes : extended.toJson 3 (.bytes [0x61]) =
      some (.ok (.object [("__type", .string "bytes"), ("repr", .string "b\"a\"")])) := rfl
  have hvalues : ∀ pair ∈ edgeNumbers, ∀ v, pair.2.capture = .ok v → extended.Encodes v := by
    intro pair hpair v hv
    simp only [edgeNumbers, List.mem_cons, List.not_mem_nil, or_false] at hpair
    rcases hpair with rfl | rfl | rfl
    · cases hv; exact ⟨3, _, hbytes⟩
    · cases hv; exact ⟨2, .array [.null], rfl⟩
    · cases hv; exact ⟨1, .bool true, rfl⟩
  have hall := hmaps none edgeCalls _ hcapture
  rw [hpaired] at hall
  obtain ⟨budget, members, hmembers, hall⟩ := hall
    (by simp [edgeNumbers, Program.number?]) (by simp [edgeNumbers, Program.number?]) hvalues
  obtain ⟨⟨_, x⟩, _, ⟨⟨m, hm, rfl⟩, _, hv, hx⟩, hrest, rfl⟩ := List.forall₂_cons_left_iff.1 hall
  obtain ⟨⟨_, y⟩, _, ⟨⟨n, hn, rfl⟩, -⟩, hlast, rfl⟩ := List.forall₂_cons_left_iff.1 hrest
  obtain ⟨⟨_, z⟩, _, ⟨⟨l, hl, rfl⟩, -⟩, hnone, rfl⟩ := List.forall₂_cons_left_iff.1 hlast
  obtain rfl := List.forall₂_nil_left_iff.1 hnone
  cases hm
  cases hn
  cases hl
  cases hv
  obtain rfl := Except.ok.inj (toJson_unique hx hbytes)
  exact ⟨hseven, _, budget, y, z, hcapture, hmembers⟩

end Encoder

end DocStore
