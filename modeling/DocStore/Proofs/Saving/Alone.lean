import DocStore.Proofs.Saving.Completion
/-!
# A replacement on its own

`Replacement.run` is the run of a single replacement, so the invariant of many
holds of it (`exists_invariant_run`). Nobody else renames anything, so no file
is abandoned, and what is left is the tree with the directories made, the
target replaced if the outcome is good (`replaced_of_run_eq_ok`). The path then
leads to the new content, unless it leads through the link that the content
replaced (`Replaced.read_eq`).
-/

namespace DocStore

namespace Replacement

variable {r : Replacement} {t : FileTree}

/-- The tree with the directories made that lead to the target. -/
def prepared (r : Replacement) (t : FileTree) : FileTree :=
  if r.createDirs then (t.createDirectories r.directory).1 else t

theorem prepared_grows (r : Replacement) (t : FileTree) : t.Grows (r.prepared t) := by
  rw [prepared]
  split
  · exact FileTree.createDirectories_grows t r.directory
  · exact .refl

/-- **A run ends within the invariant**, over the tree with the directories
made, and abandons nothing. -/
theorem exists_invariant_run (r : Replacement) (t : FileTree) :
    ∃ s : Interleaving Unit, Interleaving.Invariant (fun _ => r) r.path (r.prepared t) s ∧
      s.tree = (r.run t).1 ∧ s.phase () = .finished (r.run t).2 ∧ s.abandoned = [] := by
  have hfailed : ∀ u e, ∃ s : Interleaving Unit, Interleaving.Invariant (fun _ => r) r.path u s ∧
      s.tree = u ∧ s.phase () = .finished (.error e) ∧ s.abandoned = [] :=
    fun u e => ⟨.idle u fun _ => .finished (.error e), .of_idle u (fun _ => rfl) fun _ => id,
      rfl, rfl, rfl⟩
  -- from the creation of the temporary file on
  have hcreating : ∀ u, ∃ s : Interleaving Unit,
      Interleaving.Invariant (fun _ => r) r.path u s ∧ s.tree = (r.runFrom u 6 .creating).1 ∧
      s.phase () = .finished (r.runFrom u 6 .creating).2 ∧ s.abandoned = [] := by
    intro u
    rw [r.runFrom_succ u 5 (by simp), step]
    cases hcreate : r.createTemp u r.tries with
    | error e => exact hfailed u e
    | ok created =>
      obtain ⟨u', temp⟩ := created
      obtain ⟨k, -, hnth⟩ := Temporary.exists_createNth_of_createTemp hcreate
      have hstart : Interleaving.Invariant (fun _ : Unit => r) r.path u
          (.idle u fun _ => .creating) := .of_idle u (fun _ => rfl) fun _ => id
      have hcreated := hstart.create (i := ()) rfl rfl hnth List.not_mem_nil
      obtain ⟨s, hadvances, hinv, htree, hend, hpassed⟩ :=
        hcreated.exists_advances_runFrom (i := ()) (p := .writing temp r.content) 5 Nat.le.refl
          (by simp [Phase.ahead]) rfl List.not_mem_nil Interleaving.phase_create
      refine ⟨s, hinv, htree, hend, ?_⟩
      -- only after a rename is a file passed over, and then this one has renamed its own
      have hnone : s.passedOver = [] := by
        by_cases hok : s.phase () = .finished (.ok ())
        · exact hpassed hok
        · by_contra hsome
          refine (hinv.passedOver hsome).1 (hinv.landed_eq_nil fun _ hlanded => hok ?_)
          rw [hend] at hlanded
          rw [hend, Phase.hasLanded_finished.1 hlanded]
      rw [Interleaving.abandoned, hadvances.left, hnone]
      rfl
  rw [run, Phase.ahead, r.runFrom_succ t 6 (by simp), step, prepared]
  split
  · cases t.createDirectories r.directory with
    | mk u outcome =>
      cases outcome with
      | ok _ => exact hcreating u
      | error e => exact hfailed u e
  · exact hcreating t

end Replacement

/-! ## What is left -/

/-- **What became of a tree whose target was replaced**: the target is a file
with the content, and all else is as it was. -/
structure FileTree.Replaced (t t' : FileTree) (path : RawText) (mode : Nat)
    (content : List UInt8) (target : Location) : Prop where
  home : t'.home = t.home
  named : ∃ dir name, t.Names path dir name ∧ target = dir ++ [name] ∧
    name.size ≤ nameLimit
  slash : Path.endsInSlash path = false
  was : t.get? target ≠ some .directory
  file : t'.get? target = some (.file mode content)
  others : ∀ l, l ≠ target → t'.get? l = t.get? l

namespace FileTree.Replaced

variable {t t' : FileTree} {path : RawText} {mode : Nat} {content : List UInt8} {target : Location}

theorem keeps (h : t.Replaced t' path mode content target) : t.Keeps t' := by
  refine ⟨h.home, fun l hdirectory => ?_, fun l s hlink => ?_⟩
  · have hl : l ≠ target := by
      rintro rfl
      exact h.was hdirectory
    rw [h.others l hl, hdirectory]
  · by_cases hl : l = target
    · exact Or.inr ⟨mode, content, hl ▸ h.file⟩
    · exact Or.inl (by rw [h.others l hl, hlink])

/-- **The path leads to the new file**, unless it leads through the link that the file
replaced; then it leads to no directory any more. -/
theorem resolve_eq (h : t.Replaced t' path mode content target) :
    t'.resolve path =
      if target ∈ t.linksThrough path then .error .notDirectory
      else .ok (target, .file mode content) := by
  obtain ⟨dir, name, hnames, rfl, hshort⟩ := h.named
  -- a link on the way is gone only if it was the target
  rcases hnames.of_keeps h.keeps with ⟨hnames', hsame⟩ | ⟨hlost, -, l, hl, mode', content', hfile⟩
  · have hnot : dir ++ [name] ∉ t.linksThrough path := by
      intro hmem
      obtain ⟨s, hlink⟩ := exists_link_of_mem_linksFollowed hmem
      have hfile := hsame _ hmem
      rw [h.file, hlink] at hfile
      cases hfile
    rw [if_neg hnot]
    exact hnames'.resolve_eq h.slash hshort h.file (fun _ => by simp)
  · have hmem : dir ++ [name] ∈ t.linksThrough path := by
      by_cases heq : l = dir ++ [name]
      · exact heq ▸ hl
      · obtain ⟨s, hlink⟩ := exists_link_of_mem_linksFollowed hl
        rw [h.others l heq, hlink] at hfile
        cases hfile
    rw [if_pos hmem, hlost]

/-- **Reading the path gives the new content**, unless the path leads through the link
that the content replaced. -/
theorem read_eq (h : t.Replaced t' path mode content target) :
    t'.read path =
      if target ∈ t.linksThrough path then .error .notDirectory else .ok content := by
  rw [read, h.resolve_eq]
  split
  · rfl
  · rfl

end FileTree.Replaced

namespace Replacement

variable {r : Replacement} {t t' : FileTree}

/-- **A replacement that fails** changes nothing but to make directories. -/
theorem same_of_run_eq_error {e : IoError} (h : r.run t = (t', .error e)) :
    t'.home = (r.prepared t).home ∧ ∀ l, t'.get? l = (r.prepared t).get? l := by
  obtain ⟨s, hinv, htree, hend, habandoned⟩ := r.exists_invariant_run t
  rw [h] at htree hend
  obtain rfl : s.tree = t' := htree
  have hlanded : s.landed = [] := hinv.landed_eq_nil fun _ hlanded => by
    rw [hend] at hlanded
    exact hlanded
  refine ⟨hinv.home, fun l => ?_⟩
  by_cases htarget : ∃ dir name, (r.prepared t).Names r.path dir name ∧ l = dir ++ [name]
  · obtain ⟨dir, name, hnames, rfl⟩ := htarget
    have hentry := hinv.target dir name hnames
    rwa [hlanded] at hentry
  · refine hinv.others l ?_ (by rw [habandoned]; exact List.not_mem_nil) fun _ temp hlive => ?_
    · rintro dir name hnames rfl
      exact htarget ⟨dir, name, hnames, rfl⟩
    · rw [hend] at hlive
      cases hlive

/-- **A replacement that succeeds** replaces the target, and changes nothing
else but to make directories. -/
theorem replaced_of_run_eq_ok (h : r.run t = (t', .ok ())) :
    ∃ target, (r.prepared t).Replaced t' r.path r.mode r.content target := by
  obtain ⟨s, hinv, htree, hend, habandoned⟩ := r.exists_invariant_run t
  rw [h] at htree hend
  obtain rfl : s.tree = t' := htree
  have hne : s.landed ≠ [] :=
    List.ne_nil_of_mem ((hinv.outcome ()).2 (by rw [hend]; trivial))
  obtain ⟨dir, name, hnames, hslash, hshort, hwas⟩ := hinv.landed hne
  refine ⟨dir ++ [name], hinv.home, ⟨dir, name, hnames, rfl, hshort⟩, hslash, hwas, ?_,
    fun l hl => ?_⟩
  · have htarget := hinv.target dir name hnames
    cases hlanded : s.landed with
    | nil => exact absurd hlanded hne
    | cons i rest =>
      rw [hlanded] at htarget
      exact htarget
  · refine hinv.others l (fun dir' name' hnames' => ?_)
      (by rw [habandoned]; exact List.not_mem_nil) fun _ temp hlive => ?_
    · obtain ⟨rfl, rfl⟩ := hnames.unique hnames'
      exact hl
    · rw [hend] at hlive
      cases hlive

/-! ## When a replacement succeeds -/

variable {u : FileTree} {temp : Temporary} {dir : Location} {name : RawText}

theorem runFrom_of_step {acts chunk : Nat} {p : Phase} (p' : Phase)
    (hchunk : chunk = r.content.length) (hfinished : ∀ outcome, p ≠ .finished outcome)
    (hstep : r.step chunk t p = (t', p')) :
    r.runFrom t (acts + 1) p = r.runFrom t' acts p' := by
  rw [r.runFrom_succ t acts hfinished, ← hchunk, hstep]

/-- **A temporary file that is written is made public and renamed**, if the
target can be replaced. -/
theorem exists_runFrom_opening (hat : temp.IsAt r t)
    (hfile : t.get? temp.location = some (.file privateMode r.content))
    (hnames : t.Names r.path dir name) (hslash : Path.endsInSlash r.path = false)
    (hshort : name.size ≤ nameLimit) (hwas : t.get? (dir ++ [name]) ≠ some .directory) :
    ∃ t', r.runFrom t 3 (.opening temp) = (t', .ok ()) := by
  have hne : dir ++ [name] ≠ temp.location := (hat.neverNamed t dir name hnames).symm
  have hdirectory : t.get? temp.location ≠ some .directory := by simp [hfile]
  have hlink : ∀ target, t.get? temp.location ≠ some (.link target) := by simp [hfile]
  obtain ⟨v, hopen, hat', ⟨mode, content, hfile'⟩, hnames', hwas'⟩ :
      ∃ v, r.step r.content.length t (.opening temp) = (v, .renaming temp) ∧ temp.IsAt r v ∧
        (∃ mode content, v.get? temp.location = some (.file mode content)) ∧
        v.Names r.path dir name ∧ v.get? (dir ++ [name]) ≠ some .directory := by
    by_cases hprivate : r.isPrivate = true
    · exact ⟨t, by rw [step, if_pos hprivate], hat, ⟨_, _, hfile⟩, hnames, hwas⟩
    · refine ⟨t.put temp.location (.file publicMode r.content), ?_, hat.put_file hdirectory hlink,
        ⟨_, _, FileTree.get?_put_self hat.ne_nil⟩, hnames.put_file hdirectory hlink, ?_⟩
      · rw [step, if_neg hprivate, hat.setMode_eq hfile publicMode]
      · rwa [FileTree.get?_put_of_ne hne]
  have hrename := hat'.rename_eq hfile' hnames' hslash hshort hwas'
  obtain ⟨w, hremove⟩ := r.exists_step_removing r.content.length
    ((v.erase temp.location).put (dir ++ [name]) (.file mode content)) temp (.ok ())
  refine ⟨w, ?_⟩
  rw [runFrom_of_step _ rfl (by simp) hopen,
    runFrom_of_step (.removing temp (.ok ())) rfl (by simp) (by rw [step, hrename]),
    runFrom_of_step _ rfl (by simp) hremove, runFrom_finished]

/-- **From the creation of the temporary file on a replacement succeeds**, if the
target can be replaced. -/
theorem exists_runFrom_writing (hat : temp.IsAt r t)
    (hempty : t.get? temp.location = some (.file privateMode []))
    (hnames : t.Names r.path dir name) (hslash : Path.endsInSlash r.path = false)
    (hshort : name.size ≤ nameLimit) (hwas : t.get? (dir ++ [name]) ≠ some .directory) :
    ∃ t', r.runFrom t 5 (.writing temp r.content) = (t', .ok ()) := by
  have hne : dir ++ [name] ≠ temp.location := (hat.neverNamed t dir name hnames).symm
  have hwrite : r.step r.content.length t (.writing temp r.content) =
      (t.put temp.location (.file privateMode r.content), .syncing temp) := by
    simp only [step, List.drop_length, List.take_length, FileTree.append, hempty, List.nil_append]
  rw [runFrom_of_step _ rfl (by simp) hwrite, runFrom_of_step (.opening temp) rfl (by simp) rfl]
  refine exists_runFrom_opening (hat.put_file ?_ ?_) (FileTree.get?_put_self hat.ne_nil)
    (hnames.put_file ?_ ?_) hslash hshort ?_
  · simp [hempty]
  · simp [hempty]
  · simp [hempty]
  · simp [hempty]
  · rwa [FileTree.get?_put_of_ne hne]

/-- **A replacement succeeds** where the directories can be made, a temporary
file can be created and the target can be replaced. -/
theorem exists_run_eq_ok
    (hdirs : r.createDirs = true → (t.createDirectories r.directory).2 = .ok ())
    (hcreate : r.createTemp (r.prepared t) r.tries = .ok (u, temp))
    (hnames : (r.prepared t).Names r.path dir name) (hslash : Path.endsInSlash r.path = false)
    (hshort : name.size ≤ nameLimit)
    (hwas : (r.prepared t).get? (dir ++ [name]) ≠ some .directory) :
    ∃ t', r.run t = (t', .ok ()) := by
  have hprepare : r.step r.content.length t .preparing = (r.prepared t, .creating) := by
    rw [step, prepared]
    split
    next hcreates =>
      have hok := hdirs hcreates
      cases hmade : t.createDirectories r.directory with
      | mk v outcome =>
        rw [hmade] at hok
        dsimp only at hok
        rw [hok]
    next => rfl
  obtain ⟨k, -, hnth⟩ := Temporary.exists_createNth_of_createTemp hcreate
  obtain ⟨hat, hfree, rfl⟩ := Temporary.isAt_of_createNth hnth
  have hne : dir ++ [name] ≠ temp.location := (hat.neverNamed _ dir name hnames).symm
  rw [run, Phase.ahead, runFrom_of_step _ rfl (by simp) hprepare,
    runFrom_of_step (.writing temp r.content) rfl (by simp) (by rw [step, hcreate])]
  refine exists_runFrom_writing (hat.put_file ?_ ?_) (FileTree.get?_put_self hat.ne_nil)
    (hnames.put_file ?_ ?_) hslash hshort ?_
  · simp [hfree]
  · simp [hfree]
  · simp [hfree]
  · simp [hfree]
  · rwa [FileTree.get?_put_of_ne hne]

end Replacement

end DocStore
