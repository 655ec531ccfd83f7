import DocStore.Loading.Load
import DocStore.Proofs.Saving.AllOrNothing
import DocStore.Proofs.Typed.Objects
/-!
# Typed values survive being written and loaded

A value of a faithful type is captured without an error, every encoder gives it the
same text, and a load of a file that holds the text gives the value back, whatever the
default (`Faithful.roundTrips`). So it is for the types of numbers, texts, options,
lists, pairs and maps, and for configurations (`typed_round_trip`).
-/

namespace DocStore

/-- **Every value of a type survives** being captured, written under any encoder, and
loaded from a file that holds what was written. -/
def RoundTrips (α : Type) [Describe α] [Decodable α] : Prop :=
  ∀ x : α, ∃ n text, (describe x).capture = .ok n ∧
    (∀ e : Encoder, ∃ least, ∀ budget, least ≤ budget → e.toText budget n = some (.ok text)) ∧
    decode α (Text.bytes text) = .ok x ∧
    ∀ (σ : Type) (current : σ) (t : FileTree) (path : RawText) (d : α),
      t.read path = .ok (Text.bytes text) → (load current t path d).outcome = .ok x

/-- **The values of a faithful type survive.** -/
theorem Faithful.roundTrips {α : Type} [Describe α] [Decodable α] [Faithful α] :
    RoundTrips α := by
  intro x
  have hdecode : decode α (Text.bytes (Json.pretty (image x))) = .ok x := by
    have hend : Reader.EndsNumber [] := by simp [Reader.EndsNumber]
    have hread := ((reads_image x 0).read_valueText (floatFree_image x) hend).1
    rw [List.append_nil] at hread
    rw [decode, Reader.whole, Json.bytes_pretty, hread]
    rfl
  refine ⟨node x, Json.pretty (image x), capture_describe x, fun e => ?_, hdecode,
    fun σ current t path d hread => ?_⟩
  · refine ⟨(image x).depth + 1, fun budget hbudget => ?_⟩
    rw [Encoder.toText, Encoder.toJson, encode_node x e 0 hbudget]
    rfl
  · rw [load, hread]
    dsimp only
    rw [hdecode]

/-- **Typed values survive being written and loaded**: under every encoder, for every
default, and down to each entry of a map, whose whole-number keys come back from their
names. -/
theorem typed_round_trip :
    RoundTrips Config ∧ RoundTrips Int64 ∧ RoundTrips UInt8 ∧ RoundTrips Bool ∧
      RoundTrips String ∧ RoundTrips Unit ∧ RoundTrips (Option Int64) ∧ RoundTrips (List Int64) ∧
      RoundTrips (UInt8 × String) ∧ RoundTrips (Std.ExtTreeMap String Int64 compare) ∧
      RoundTrips (Std.ExtTreeMap Int8 Bool compare) :=
  ⟨Faithful.roundTrips, Faithful.roundTrips, Faithful.roundTrips, Faithful.roundTrips,
    Faithful.roundTrips, Faithful.roundTrips, Faithful.roundTrips, Faithful.roundTrips,
    Faithful.roundTrips, Faithful.roundTrips, Faithful.roundTrips⟩

/-- A text is that of a value. -/
theorem Encoder.exists_toJson_of_toText {e : Encoder} {budget : Nat} {n : Node} {text : String}
    (h : e.toText budget n = some (.ok text)) :
    ∃ w, e.toJson budget n = some (.ok w) ∧ text = Json.pretty w := by
  unfold Encoder.toText at h
  cases hjson : e.toJson budget n with
  | none =>
    rw [hjson] at h
    cases h
  | some result =>
    rw [hjson] at h
    cases result with
    | error cause => cases h
    | ok w =>
      cases h
      exact ⟨w, rfl, rfl⟩

/-- A configuration that is saved where there is nothing is read and loaded from there. -/
theorem typed_round_trip_saved :
    ∃ (budget : Nat) (saved : Saved Unit) (content : List UInt8),
      saveDescribed () {} budget {} "deep.json" (describe (⟨"shelf", 80, ["a", "b"]⟩ : Config)) =
        some saved ∧
      saved.outcome = .ok () ∧ saved.tree.read "deep.json" = .ok content ∧
      ∀ d : Config, (load () saved.tree "deep.json" d).outcome =
        .ok ⟨"shelf", 80, ["a", "b"]⟩ := by
  obtain ⟨n, text, hcapture, hwritten, -, hload⟩ := typed_round_trip.1 ⟨"shelf", 80, ["a", "b"]⟩
  obtain ⟨budget, hbudget⟩ := hwritten .strict
  obtain ⟨w, hjson, rfl⟩ := Encoder.exists_toJson_of_toText (hbudget budget (Nat.le_refl _))
  obtain ⟨rest, hrest⟩ := Temporary.exists_suffixesInOrder_eq {}
  obtain ⟨t', hsave⟩ := emptyTree.exists_save () (o := {}) rfl hjson hrest
  obtain ⟨saved, hsaved, hwhole⟩ :=
    save_eq_some () {} budget {} "deep.json" (FileTree.suffixesInOrder {}) hjson
  obtain rfl := Option.some.inj (hsaved.symm.trans hsave)
  obtain ⟨w', target, hw, -, hread⟩ := hwhole.written rfl
  obtain rfl := Except.ok.inj hw
  rw [SaveOptions.prepared_eq_self rfl, emptyTree.linksThrough_deep,
    if_neg List.not_mem_nil] at hread
  refine ⟨budget, _, _, ?_, rfl, hread, fun d => hload Unit () t' "deep.json" d hread⟩
  rw [saveDescribed, hcapture]
  exact hsave

end DocStore
