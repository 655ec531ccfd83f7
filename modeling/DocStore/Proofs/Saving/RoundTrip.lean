import DocStore.Loading.Load
import DocStore.Proofs.Encoding.Budget
import DocStore.Proofs.Encoding.Values
import DocStore.Proofs.Json.ReadBack
import DocStore.Proofs.Saving.AllOrNothing
/-!
# What is saved is loaded again

A JSON value without floats encodes to a text that is read as that value,
whatever the encoder substitutes. A load from the path of a successful save
gives the value back, unless the path leads through the link that the save
replaced.
-/

namespace DocStore

open Json

variable {σ ρ : Type} {v : Json}

/-- **A value is written as a text that reads as the value.** -/
theorem toText_ofJson (e : Encoder) {budget : Nat} (hdistinct : Distinct v)
    (hbudget : v.depth < budget) :
    e.toText budget (Node.ofJson v) = some (.ok (pretty v)) := by
  rw [Encoder.toText, Encoder.toJson_ofJson e hdistinct hbudget]
  rfl

/-- A load of what a file holds in full. -/
theorem loadDocument_of_read {t : FileTree} {path : RawText} (current : ρ) (d : Option Json)
    (hparse : parse (Text.bytes (pretty v)) = .ok v)
    (hread : t.read path = .ok (Text.bytes (pretty v))) :
    (loadDocument current t path d).outcome = .ok v := by
  have hdecode : decode Json (Text.bytes (pretty v)) = .ok v := hparse
  rw [loadDocument, load, hread]
  dsimp only
  rw [hdecode]

/-- A load under a path that leads through a file. -/
theorem loadDocument_of_read_error {t : FileTree} {path : RawText} (current : ρ) (d : Option Json)
    (hread : t.read path = .error .notDirectory) :
    (loadDocument current t path d).outcome = .error (.unreadable path .notDirectory) := by
  have hkind : IoError.notDirectory.kind ≠ .notFound := by decide
  rw [loadDocument, load, hread]
  dsimp only
  rw [if_neg hkind]

/-- **A value survives being saved and loaded**: every encoder gives it a text
that is read as the value, and a load under the path of a save that succeeded
gives it back, whatever the default. The exception is a path that leads through
the entry it names, a link when the walk went through it and a file since. -/
theorem load_of_save (hfree : FloatFree v) (hdistinct : Distinct v) (hdepth : v.depth ≤ 127) :
    (∀ (e : Encoder) (budget : Nat), v.depth < budget →
      ∃ text, e.toText budget (Node.ofJson v) = some (.ok text) ∧
        parse (Text.bytes text) = .ok v) ∧
    ∀ (current : σ) (o : SaveOptions) (budget : Nat) (t : FileTree) (path : RawText)
      (tries : List Nat) (saved : Saved σ),
      save current o budget t path (Node.ofJson v) tries = some saved →
      saved.outcome = .ok () →
      ∃ dir name, (o.prepared t path).Names path dir name ∧
        ∀ (current' : ρ) (d : Option Json),
          (loadDocument current' saved.tree path d).outcome =
            if dir ++ [name] ∈ (o.prepared t path).linksThrough path then
              .error (.unreadable path .notDirectory)
            else .ok v := by
  have hparse := parse_pretty hfree hdistinct hdepth
  refine ⟨fun e budget hbudget => ⟨pretty v, toText_ofJson e hdistinct hbudget, hparse⟩,
    fun current o budget t path tries saved hsave hok => ?_⟩
  have hjson : o.encoder.toJson budget (Node.ofJson v) = some (.ok v) := by
    cases hjson : o.encoder.toJson budget (Node.ofJson v) with
    | none =>
      rw [save, Encoder.toText, hjson] at hsave
      cases hsave
    | some result =>
      have henough := Encoder.toJson_ofJson o.encoder hdistinct (Nat.lt_succ_self v.depth)
      rw [Encoder.toJson_unique hjson henough]
  obtain ⟨saved', hsave', hwhole⟩ := save_eq_some current o budget t path tries hjson
  obtain rfl : saved' = saved := Option.some.inj (hsave'.symm.trans hsave)
  obtain ⟨v', target, hv, hreplaced, hread⟩ := hwhole.written hok
  obtain rfl := Except.ok.inj hv
  obtain ⟨dir, name, hnames, rfl, -⟩ := hreplaced.named
  refine ⟨dir, name, hnames, fun current' d => ?_⟩
  split
  next hmem =>
    rw [if_pos hmem] at hread
    exact loadDocument_of_read_error current' d hread
  next hmem =>
    rw [if_neg hmem] at hread
    exact loadDocument_of_read current' d hparse hread

/-- A list in an object, under the encoder that substitutes most, and saved and loaded. -/
theorem load_of_save_nested :
    (∃ text, Encoder.extended.toText 3 (Node.ofJson (.object [("k", .array [.null])])) =
        some (.ok text) ∧
      parse (Text.bytes text) = .ok (.object [("k", .array [.null])])) ∧
    ∃ saved : Saved Unit,
      save () { encoder := .extended } 3 {} "deep.json"
        (Node.ofJson (.object [("k", .array [.null])])) = some saved ∧
      saved.outcome = .ok () ∧
      (loadDocument () saved.tree "deep.json" none).outcome =
        .ok (.object [("k", .array [.null])]) := by
  have hdistinct : Distinct (.object [("k", .array [.null])]) := by
    simp [Distinct, DistinctMembers, DistinctAll]
  obtain ⟨htext, hload⟩ := @load_of_save Unit Unit (.object [("k", .array [.null])])
    (by simp [FloatFree, FloatFreeMembers, FloatFreeAll]) hdistinct (by decide)
  obtain ⟨rest, hrest⟩ := Temporary.exists_suffixesInOrder_eq {}
  have hjson : Encoder.extended.toJson 3 (Node.ofJson (.object [("k", .array [.null])])) =
      some (.ok (.object [("k", .array [.null])])) :=
    Encoder.toJson_ofJson Encoder.extended hdistinct (by decide)
  obtain ⟨t', hsave⟩ := emptyTree.exists_save () (o := { encoder := .extended }) rfl hjson hrest
  obtain ⟨dir, name, -, hload⟩ := hload () _ 3 {} "deep.json" _ _ hsave rfl
  refine ⟨htext Encoder.extended 3 (by decide), _, hsave, rfl, ?_⟩
  rw [hload, SaveOptions.prepared_eq_self rfl, emptyTree.linksThrough_deep,
    if_neg List.not_mem_nil]

/-- **A save that succeeded may be followed by a load that fails.** The path
leads through the link that the save replaced. -/
theorem load_fails_after_save :
    ∃ saved : Saved Unit,
      save () {} 1 linkedShelf "way/../way" (Node.ofJson .null) = some saved ∧
      saved.outcome = .ok () ∧
      (loadDocument () saved.tree "way/../way" none).outcome =
        .error (.unreadable "way/../way" .notDirectory) := by
  obtain ⟨t', hsave, hread⟩ := linkedShelf.exists_save () (o := {}) rfl
    (Encoder.toJson_ofJson (v := .null) Encoder.strict trivial Nat.one_pos)
  exact ⟨_, hsave, rfl, loadDocument_of_read_error () none hread⟩

end DocStore
