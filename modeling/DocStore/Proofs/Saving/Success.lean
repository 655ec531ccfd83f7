import DocStore.Proofs.Saving.AllOrNothing
import DocStore.Proofs.Saving.FreeNames
/-!
# When a save succeeds

A replacement succeeds exactly if the directories can be made that it is to make, the path
names an entry that is no directory then, and a temporary file can be created beside it
(`exists_run_eq_ok_iff`). A save succeeds if the node encodes and its replacement succeeds
(`save_ok_iff_run`).
-/

namespace DocStore

namespace Replacement

variable {r : Replacement} {t t' : FileTree}

/-- A replacement that succeeds has made the directories and created a temporary file. -/
theorem created_of_run_eq_ok (h : r.run t = (t', .ok ())) :
    (r.createDirs = true → (t.createDirectories r.directory).2 = .ok ()) ∧
    ∃ created, r.createTemp (r.prepared t) r.tries = .ok created := by
  have hcreating : ∀ u, r.runFrom u 6 .creating = (t', .ok ()) →
      ∃ created, r.createTemp u r.tries = .ok created := by
    intro u hok
    rw [r.runFrom_succ u 5 (by simp), step] at hok
    cases hcreate : r.createTemp u r.tries with
    | ok created => exact ⟨created, rfl⟩
    | error e =>
      rw [hcreate] at hok
      cases hok
  unfold run at h
  rw [Phase.ahead, r.runFrom_succ t 6 (by simp), step] at h
  unfold prepared
  split at h
  next hdirs =>
    rw [if_pos hdirs]
    cases hmade : t.createDirectories r.directory with
    | mk u outcome =>
      rw [hmade] at h
      cases outcome with
      | ok _ => exact ⟨fun _ => rfl, hcreating u h⟩
      | error e => cases h
  next hdirs =>
    rw [if_neg hdirs]
    exact ⟨fun htrue => absurd htrue hdirs, hcreating t h⟩

/-- **When a replacement succeeds**, in whatever tree and under whatever path. -/
theorem exists_run_eq_ok_iff (r : Replacement) (t : FileTree) :
    (∃ t', r.run t = (t', .ok ())) ↔
      (r.createDirs = true → (t.createDirectories r.directory).2 = .ok ()) ∧
      Path.endsInSlash r.path = false ∧
      ∃ dir name, (r.prepared t).Names r.path dir name ∧
        (r.prepared t).get? (dir ++ [name]) ≠ some .directory ∧
        name.text.utf8ByteSize + 12 ≤ nameLimit ∧
        FileTree.checkPath ((r.prepared t).fromRoot (r.tempPath 0)) = .ok () ∧
        ∃ k ∈ r.tries, (r.prepared t).get? (dir ++ [r.tempName k]) = none := by
  constructor
  · rintro ⟨t', h⟩
    obtain ⟨hdirs, hcreated⟩ := created_of_run_eq_ok h
    obtain ⟨target, hreplaced⟩ := replaced_of_run_eq_ok h
    obtain ⟨dir, name, hnames, rfl, -⟩ := hreplaced.named
    have htemp := (exists_createTemp_iff hnames hreplaced.slash).1 hcreated
    exact ⟨hdirs, hreplaced.slash, dir, name, hnames, hreplaced.was, htemp⟩
  · rintro ⟨hdirs, hslash, dir, name, hnames, hwas, htemp⟩
    obtain ⟨⟨u, temp⟩, hcreate⟩ := (exists_createTemp_iff hnames hslash).2 htemp
    have hshort := name.size_le_text
    exact exists_run_eq_ok hdirs hcreate hnames hslash (by omega) hwas

end Replacement

/-- **When a save succeeds**: if the node encodes, and the text can be put in place. -/
theorem save_ok_iff_run {σ : Type} (current : σ) (o : SaveOptions) {budget : Nat} (t : FileTree)
    (path : RawText) {n : Node} {encoded : Except EncodeError Json}
    (tries : List Nat) (hjson : o.encoder.toJson budget n = some encoded) :
    ∃ saved, save current o budget t path n tries = some saved ∧
      (saved.outcome = .ok () ↔ ∃ v, encoded = .ok v ∧
        ∃ t', (o.replacement path (Text.bytes (Json.pretty v)) tries).run t = (t', .ok ())) := by
  cases encoded with
  | error cause =>
    refine ⟨_, save_of_fault hjson current t path tries, iff_of_false ?_ ?_⟩
    · intro hok
      cases hok
    · rintro ⟨v, hv, -⟩
      cases hv
  | ok v =>
    refine ⟨_, save_of_value hjson current t path tries, ?_⟩
    unfold saveText
    cases hrun : (o.replacement path (Text.bytes v.pretty) tries).run t with
    | mk t' outcome =>
      cases outcome with
      | ok u => exact iff_of_true rfl ⟨v, rfl, t', hrun⟩
      | error e =>
        refine iff_of_false ?_ ?_
        · intro hok
          cases hok
        · rintro ⟨v', hv, t'', hok⟩
          cases hv
          rw [hrun] at hok
          cases hok

end DocStore
