import DocStore.Proofs.Encoding.Distinct
import DocStore.Proofs.Json.DepthLimit
import DocStore.Proofs.Saving.RoundTrip
/-!
# What can be loaded after a save

A save that succeeded wrote the text of what the node encodes to, under whatever
encoder. A load of the same path gives that value, if it has no float and is no
deeper than the reader goes (`load_of_saved`). The writer knows no such limit: a
deeper value is saved all the same, and refused by every later load
(`load_of_saved_deep`).
-/

namespace DocStore

open Json

variable {σ ρ : Type} {o : SaveOptions} {budget : Nat} {t : FileTree} {path : RawText} {n : Node}
  {tries : List Nat} {saved : Saved σ}

/-- **What a save that succeeded leaves to be read** under its path: the text of
the value, unless the path leads through the entry it names. -/
theorem read_of_saved {current : σ} (hsave : save current o budget t path n tries = some saved)
    (hok : saved.outcome = .ok ()) :
    ∃ w dir name, o.encoder.toJson budget n = some (.ok w) ∧ w.Distinct ∧
      (o.prepared t path).Names path dir name ∧
      saved.tree.read path =
        if dir ++ [name] ∈ (o.prepared t path).linksThrough path then .error .notDirectory
        else .ok (Text.bytes (pretty w)) := by
  cases hjson : o.encoder.toJson budget n with
  | none =>
    rw [save, Encoder.toText, hjson] at hsave
    cases hsave
  | some encoded =>
    obtain ⟨saved', hsave', hwhole⟩ := save_eq_some current o budget t path tries hjson
    obtain rfl : saved' = saved := Option.some.inj (hsave'.symm.trans hsave)
    obtain ⟨w, target, rfl, hreplaced, hread⟩ := hwhole.written hok
    obtain ⟨dir, name, hnames, rfl, -⟩ := hreplaced.named
    exact ⟨w, dir, name, rfl, Encoder.distinct_of_toJson hjson, hnames, hread⟩

/-- **What is saved can be loaded.** After a save that succeeded, under whatever
encoder, options and path, a load of the path gives the value that the node
encodes to, whatever the default, as long as that value has no float and at most
127 containers lie inside each other. The exception is a path that leads through
the entry it names, a link when the walk went through it and a file since. -/
theorem load_of_saved {current : σ} (hsave : save current o budget t path n tries = some saved)
    (hok : saved.outcome = .ok ()) :
    ∃ w dir name, o.encoder.toJson budget n = some (.ok w) ∧
      (o.prepared t path).Names path dir name ∧
      (FloatFree w → w.depth ≤ 127 → ∀ (current' : ρ) (d : Option Json),
        (loadDocument current' saved.tree path d).outcome =
          if dir ++ [name] ∈ (o.prepared t path).linksThrough path then
            .error (.unreadable path .notDirectory)
          else .ok w) := by
  obtain ⟨w, dir, name, hjson, hdistinct, hnames, hread⟩ := read_of_saved hsave hok
  refine ⟨w, dir, name, hjson, hnames, fun hfree hdepth current' d => ?_⟩
  split
  next hmem =>
    rw [if_pos hmem] at hread
    exact loadDocument_of_read_error current' d hread
  next hmem =>
    rw [if_neg hmem] at hread
    exact loadDocument_of_read current' d (parse_pretty hfree hdistinct hdepth) hread

/-- **What is deeper than the reader goes is saved, and never loaded.** -/
theorem load_of_saved_deep {current : σ} (hsave : save current o budget t path n tries = some saved)
    (hok : saved.outcome = .ok ()) :
    ∃ w dir name, o.encoder.toJson budget n = some (.ok w) ∧
      (o.prepared t path).Names path dir name ∧
      (FloatFree w → 127 < w.depth →
        dir ++ [name] ∉ (o.prepared t path).linksThrough path → ∃ e : ReadError,
          e.cause = .tooDeep ∧ ∀ (current' : ρ) (d : Option Json),
            (loadDocument current' saved.tree path d).outcome = .error (.unparsable path e)) := by
  obtain ⟨w, dir, name, hjson, hdistinct, hnames, hread⟩ := read_of_saved hsave hok
  refine ⟨w, dir, name, hjson, hnames, fun hfree hdeep hmem => ?_⟩
  rw [if_neg hmem] at hread
  obtain ⟨e, he, hcause⟩ := parse_pretty_of_deep hfree hdistinct hdeep
  refine ⟨e, hcause, fun current' d => ?_⟩
  have hdecode : decode Json (Text.bytes (pretty w)) = .error e := he
  rw [loadDocument, load, hread]
  dsimp only
  rw [hdecode]

/-! ## Saves that are not loaded -/

/-- A list in a list, and so on. -/
def nestedLists : Nat → Json
  | 0 => .null
  | k + 1 => .array [nestedLists k]

theorem nestedLists_spec (k : Nat) :
    (nestedLists k).depth = k ∧ FloatFree (nestedLists k) ∧ (nestedLists k).Distinct := by
  induction k with
  | zero => exact ⟨rfl, trivial, trivial⟩
  | succ k ih =>
    obtain ⟨hdepth, hfree, hdistinct⟩ := ih
    refine ⟨?_, ⟨hfree, trivial⟩, ⟨hdistinct, trivial⟩⟩
    simp [nestedLists, Json.depth, depthAll, hdepth]

/-- A set, under the encoder that makes it a list. -/
theorem load_of_saved_set :
    ∃ saved : Saved Unit,
      save () { encoder := .standard } 3 {} "deep.json" (.set [.null]) = some saved ∧
      saved.outcome = .ok () ∧
      (loadDocument () saved.tree "deep.json" none).outcome = .ok (.array [.null]) := by
  have hjson : Encoder.standard.toJson 3 (.set [.null]) = some (.ok (.array [.null])) := rfl
  obtain ⟨rest, hrest⟩ := Temporary.exists_suffixesInOrder_eq {}
  obtain ⟨t', hsave⟩ := emptyTree.exists_save () (o := { encoder := .standard }) rfl hjson hrest
  obtain ⟨w, dir, name, hw, hnames, hload⟩ := load_of_saved (ρ := Unit) hsave rfl
  obtain rfl : w = .array [.null] := Except.ok.inj (Option.some.inj (hw.symm.trans hjson))
  refine ⟨_, hsave, rfl, ?_⟩
  rw [hload (by simp [FloatFree, FloatFreeAll]) (by decide)]
  rw [SaveOptions.prepared_eq_self rfl, emptyTree.linksThrough_deep, if_neg List.not_mem_nil]

/-- **A save that succeeded may be followed by loads that fail.** Of 128 lists
inside each other the last is one too many for the reader; and a path that leads
through a link to that very link ends at the file that replaced it. -/
theorem saved_but_not_loaded :
    (∃ saved : Saved Unit,
      save () {} 129 {} "deep.json" (Node.ofJson (nestedLists 128)) = some saved ∧
      saved.outcome = .ok () ∧
      ∃ e : ReadError, e.cause = .tooDeep ∧
        (loadDocument () saved.tree "deep.json" none).outcome =
          .error (.unparsable "deep.json" e)) ∧
    ∃ saved : Saved Unit,
      save () { encoder := .standard } 2 linkedShelf "way/../way" (.set []) = some saved ∧
      saved.outcome = .ok () ∧
      (loadDocument () saved.tree "way/../way" none).outcome =
        .error (.unreadable "way/../way" .notDirectory) := by
  refine ⟨?_, ?_⟩
  · obtain ⟨hdepth, hfree, hdistinct⟩ := nestedLists_spec 128
    have hjson : Encoder.strict.toJson 129 (Node.ofJson (nestedLists 128)) =
        some (.ok (nestedLists 128)) :=
      Encoder.toJson_ofJson Encoder.strict hdistinct (by omega)
    obtain ⟨rest, hrest⟩ := Temporary.exists_suffixesInOrder_eq {}
    obtain ⟨t', hsave⟩ := emptyTree.exists_save () (o := {}) rfl hjson hrest
    obtain ⟨w, dir, name, hw, hnames, hload⟩ := load_of_saved_deep (ρ := Unit) hsave rfl
    obtain rfl : w = nestedLists 128 := Except.ok.inj (Option.some.inj (hw.symm.trans hjson))
    obtain ⟨e, hcause, hload⟩ := hload hfree (by omega) (by
      rw [SaveOptions.prepared_eq_self rfl, emptyTree.linksThrough_deep]
      exact List.not_mem_nil)
    exact ⟨_, hsave, rfl, e, hcause, hload () none⟩
  · have hjson : Encoder.standard.toJson 2 (.set []) = some (.ok (.array [])) := rfl
    obtain ⟨t', hsave, hread⟩ := linkedShelf.exists_save () (o := { encoder := .standard }) rfl hjson
    exact ⟨_, hsave, rfl, loadDocument_of_read_error () none hread⟩

end DocStore
