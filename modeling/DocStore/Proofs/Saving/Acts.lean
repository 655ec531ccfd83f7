import DocStore.Proofs.Saving.Steps
/-!
# The acts of a replacement

Each act of `Replacement.step` is one of the changes that keep the invariant.
Where the path of the temporary file no longer leads to it, because the rename
of another replaced a link on the way, the act fails and the file is passed
over. So the invariant holds at every moment of every run (`exists_invariant`).
-/

namespace DocStore

namespace Interleaving

variable {ι : Type} [DecidableEq ι] {r : ι → Replacement} {path : RawText} {b : FileTree}
variable {s : Interleaving ι} {i : ι} {temp : Temporary}

theorem act_eq (chunk : Nat) {p : Phase} (t' : FileTree) (p' : Phase) (hphase : s.phase i = p)
    (hstep : (r i).step chunk s.tree p = (t', p')) :
    s.act r i chunk = { s with
      tree := t'
      phase := Function.update s.phase i p'
      landed := if p.lands p' then i :: s.landed else s.landed
      left := leaves (·.removalFails s.tree) p ++ s.left
      passedOver := leaves (·.isPassedOver s.tree) p ++ s.passedOver } := by
  subst hphase
  simp only [act, hstep]

namespace Invariant

theorem not_hasLanded_of_live {p : Phase} (h : p.live? = some temp) : ¬ p.HasLanded := by
  cases p with
  | preparing | creating | finished _ => cases h
  | writing _ _ | syncing _ | opening _ | «renaming» _ => exact id
  | removing _ outcome =>
    cases outcome with
    | ok _ => cases h
    | error _ => exact id

/-- An act that changes the content or the mode of the temporary file. -/
theorem rewrite_temp {mode : Nat} {content : List UInt8} {p' : Phase} (h : Invariant r path b s)
    (hi : (s.phase i).live? = some temp) (hi' : p'.live? = some temp)
    (hhand : (r i).AtHand b (s.tree.put temp.location (.file mode content)) p') :
    Invariant r path b { s with
      tree := s.tree.put temp.location (.file mode content)
      phase := Function.update s.phase i p' } := by
  refine h.own_step rfl (fun l hl => ?_) (fun u hu => ?_) (fun u hu => ?_) hhand ?_
  · exact FileTree.get?_put_of_ne (hl temp hi).symm
  · rw [Phase.temp?_of_live? hi, ← Phase.temp?_of_live? hi', hu]
  · rw [hi] at hu
    exact Or.inl (hi'.trans hu)
  · exact iff_of_false (not_hasLanded_of_live hi') (not_hasLanded_of_live hi)

/-- An act that changes nothing. -/
theorem pass {p' : Phase} (h : Invariant r path b s)
    (htemp : ∀ temp, p'.temp? = some temp → (s.phase i).temp? = some temp)
    (hlive : ∀ temp, (s.phase i).live? = some temp → p'.live? = some temp)
    (hhand : (r i).AtHand b s.tree p') (houtcome : p'.HasLanded ↔ (s.phase i).HasLanded) :
    Invariant r path b { s with phase := Function.update s.phase i p' } :=
  h.own_step rfl (fun _ _ => rfl) htemp (fun u hu => Or.inl (hlive u hu)) hhand houtcome

/-- An act that fails before the rename. The file is to be removed. -/
theorem to_removing {e : IoError} (h : Invariant r path b s)
    (hi : (s.phase i).live? = some temp) :
    Invariant r path b { s with
      phase := Function.update s.phase i (.removing temp (.error e)) } := by
  refine h.pass (fun u hu => ?_) (fun u hu => ?_) ((h.hand i).live hi) ?_
  · rw [Phase.temp?_of_live? hi]
    exact hu
  · rw [← hu, hi, Phase.live?]
  · exact iff_of_false id (not_hasLanded_of_live hi)

/-- The end, for who has no temporary file any more. -/
theorem to_finished {outcome : Except IoError Unit} (h : Invariant r path b s)
    (hlive : (s.phase i).live? = none)
    (houtcome : (Phase.finished outcome).HasLanded ↔ (s.phase i).HasLanded) :
    Invariant r path b { s with phase := Function.update s.phase i (.finished outcome) } := by
  refine h.pass (fun u hu => ?_) (fun u hu => ?_) trivial houtcome
  · cases hu
  · rw [hlive] at hu
    cases hu

/-! ## One by one -/

theorem act_writing {left : List UInt8} (h : Invariant r path b s)
    (hphase : s.phase i = .writing temp left) (chunk : Nat) :
    Invariant r path b (s.act r i chunk) := by
  have hi : (s.phase i).live? = some temp := by rw [hphase, Phase.live?]
  have hhand := h.hand i
  rw [hphase] at hhand
  obtain ⟨hat, hnone, written, hwritten, hfile⟩ := hhand
  have happend : s.tree.append temp.location (left.take chunk) =
      s.tree.put temp.location (.file privateMode (written ++ left.take chunk)) := by
    rw [FileTree.append, hfile]
  have hself : (s.tree.put temp.location (.file privateMode (written ++ left.take chunk))).get?
      temp.location = some (.file privateMode (written ++ left.take chunk)) :=
    FileTree.get?_put_self hat.ne_nil
  have hwhole : written ++ left.take chunk ++ left.drop chunk = (r i).content := by
    rw [List.append_assoc, List.take_append_drop, hwritten]
  cases hdrop : left.drop chunk with
  | nil =>
    rw [hdrop, List.append_nil] at hwhole
    rw [act_eq chunk _ (.syncing temp) hphase (by rw [Replacement.step, hdrop, happend])]
    exact h.rewrite_temp hi rfl ⟨hat, hnone, by rw [hself, hwhole]⟩
  | cons c rest =>
    rw [act_eq chunk _ (.writing temp (c :: rest)) hphase
      (by rw [Replacement.step, hdrop, happend])]
    exact h.rewrite_temp hi rfl ⟨hat, hnone, _, hdrop ▸ hwhole, hself⟩

theorem act_syncing (h : Invariant r path b s) (hphase : s.phase i = .syncing temp) (chunk : Nat) :
    Invariant r path b (s.act r i chunk) := by
  have hhand := h.hand i
  rw [hphase] at hhand
  rw [act_eq chunk _ (.opening temp) hphase rfl]
  refine h.pass ?_ ?_ hhand ?_
  · simp [hphase, Phase.temp?]
  · simp [hphase, Phase.live?]
  · simp [hphase, Phase.HasLanded]

theorem act_opening (h : Invariant r path b s) (hphase : s.phase i = .opening temp) (chunk : Nat) :
    Invariant r path b (s.act r i chunk) := by
  have hi : (s.phase i).live? = some temp := by rw [hphase, Phase.live?]
  have hhand := h.hand i
  rw [hphase] at hhand
  obtain ⟨hat, hnone, hfile⟩ := hhand
  by_cases hprivate : (r i).isPrivate = true
  · rw [act_eq chunk _ (.renaming temp) hphase (by rw [Replacement.step, if_pos hprivate])]
    refine h.pass ?_ ?_ ⟨hat, hnone, ?_⟩ ?_
    · simp [hphase, Phase.temp?]
    · simp [hphase, Phase.live?]
    · rw [hfile, Replacement.mode, if_pos hprivate]
    · simp [hphase, Phase.HasLanded]
  · rcases hat.of_keeps h.keeps with hat' | ⟨hlost, -⟩
    · have hset := hat'.setMode_eq hfile publicMode
      rw [act_eq chunk _ (.renaming temp) hphase
        (by rw [Replacement.step, if_neg hprivate, hset])]
      refine h.rewrite_temp hi rfl ⟨hat, hnone, ?_⟩
      rw [FileTree.get?_put_self hat.ne_nil, Replacement.mode, if_neg hprivate]
    · have hset : s.tree.setMode temp.path publicMode = .error .notDirectory := by
        simp [FileTree.setMode, hlost, bind, Except.bind]
      rw [act_eq chunk _ (.removing temp (.error .notDirectory)) hphase
        (by rw [Replacement.step, if_neg hprivate, hset])]
      exact h.to_removing hi

theorem act_renaming (h : Invariant r path b s) (hpath : (r i).path = path)
    (hphase : s.phase i = .renaming temp) (chunk : Nat) :
    Invariant r path b (s.act r i chunk) := by
  have hi : (s.phase i).live? = some temp := by rw [hphase, Phase.live?]
  have hhand := h.hand i
  rw [hphase] at hhand
  obtain ⟨hat, hnone, hfile⟩ := hhand
  cases hrename : s.tree.rename temp.path (r i).path with
  | error e =>
    rw [act_eq chunk _ (.removing temp (.error e)) hphase (by rw [Replacement.step, hrename])]
    exact h.to_removing hi
  | ok t' =>
    rw [act_eq chunk _ (.removing temp (.ok ())) hphase (by rw [Replacement.step, hrename])]
    obtain ⟨oldDir, oldName, dir, name, e, hold, hnew, hslash, hshort, he, hdirectory, rfl⟩ :=
      FileTree.rename_eq_ok hrename
    -- both paths are walked in the tree at hand, and the base agrees
    rcases hat.of_keeps h.keeps with hat' | ⟨-, hlost, -⟩
    · rw [hat'.location_eq hold] at he ⊢
      rw [hfile, Option.some.injEq] at he
      subst he
      rw [hpath] at hnew hslash
      exact h.land hphase (h.names_base hnew) hslash hshort hdirectory
    · exact absurd hold (hlost oldDir oldName)

/-- **The removal of a file that was not renamed** takes it away, or passes it
over. -/
theorem act_removing_error {e : IoError} (h : Invariant r path b s) (hpath : (r i).path = path)
    (hphase : s.phase i = .removing temp (.error e)) (chunk : Nat) :
    Invariant r path b (s.act r i chunk) := by
  have hi : (s.phase i).live? = some temp := by rw [hphase, Phase.live?]
  obtain ⟨hat, -⟩ := (h.hand i).live hi
  rcases h.removal_cases hpath hi with ⟨hthere, hfails, hremove⟩ | ⟨hgone, hfails, hlink⟩
  · rw [Temporary.isPassedOver, Bool.not_eq_false'] at hthere
    rw [act_eq chunk (s.tree.erase temp.location) (.finished (.error e)) hphase
      (by rw [Replacement.step, if_pos hthere, hremove])]
    simp only [leaves, Temporary.isPassedOver, hthere, hfails, Phase.lands]
    refine h.own_step rfl (fun l hl => ?_) (fun u hu => ?_) (fun u hu => ?_) trivial ?_
    · exact FileTree.get?_erase_of_ne (hl temp hi).symm
    · cases hu
    · rw [hi] at hu
      obtain rfl := Option.some.inj hu
      exact Or.inr (FileTree.get?_erase_self hat.ne_nil)
    · exact iff_of_false id (not_hasLanded_of_live hi)
  · rw [Temporary.isPassedOver, Bool.not_eq_true'] at hgone
    rw [act_eq chunk s.tree (.finished (.error e)) hphase
      (by rw [Replacement.step, hgone, if_neg Bool.false_ne_true])]
    simp only [leaves, Temporary.isPassedOver, hgone, hfails, Phase.lands]
    refine h.leave hphase (fun l => ?_) fun _ => hlink
    simp [or_left_comm]

/-- **After the rename there is nothing to remove.** What the path of the
temporary file may lead to is a directory created since, which stays. -/
theorem act_removing_ok {u : Unit} (h : Invariant r path b s)
    (hphase : s.phase i = .removing temp (.ok u)) (chunk : Nat) :
    Invariant r path b (s.act r i chunk) := by
  have htemp : (s.phase i).temp? = some temp := by rw [hphase, Phase.temp?]
  have hlive : (s.phase i).live? = none := by rw [hphase, Phase.live?]
  have hhand := h.hand i
  rw [hphase] at hhand
  have hat : temp.IsAt (r i) b := hhand
  have hused := h.used i temp htemp
  have hentry : s.tree.get? temp.location = b.get? temp.location := by
    refine h.others _ (fun dir name hnames => h.neverNamed _ hused b dir name hnames) ?_ ?_
    · exact fun hleft => (h.abandoned _ hleft).2.2.2 i temp htemp rfl
    · intro j u hj heq
      obtain rfl := h.apart j i u temp (Phase.temp?_of_live? hj) htemp heq
      rw [hlive] at hj
      cases hj
  -- only a directory can lie there, and removing takes no directories
  have hstays : ∀ t', s.tree.remove temp.path ≠ .ok t' := by
    intro t' hremove
    obtain ⟨dir, name, e, hnames, he, hdirectory, -⟩ := FileTree.remove_eq_ok hremove
    rcases hat.of_keeps h.keeps with hat' | ⟨-, hlost, -⟩
    · rw [hat'.location_eq hnames, hentry] at he
      rcases h.fresh _ hused with hbase | hbase
      · rw [hbase] at he
        cases he
      · rw [hbase] at he
        exact hdirectory (Option.some.inj he).symm
    · exact hlost dir name hnames
  have hstep : (r i).step chunk s.tree (.removing temp (.ok u)) = (s.tree, .finished (.ok u)) := by
    rw [Replacement.step]
    split
    · cases hremove : s.tree.remove temp.path with
      | ok t' => exact absurd hremove (hstays t')
      | error e => rfl
    · rfl
  rw [act_eq chunk _ _ hphase hstep]
  exact h.to_finished hlive (by simp [hphase, Phase.HasLanded])

/-- The directories that lead to the target may be made. -/
theorem act_preparing (h : Invariant r path b s) (hpath : (r i).path = path)
    (hphase : s.phase i = .preparing) (chunk : Nat) :
    ∃ b', b.GrowsAlong (Path.ancestors (Path.directory path)) b' ∧
      ((r i).createDirs = false → b' = b) ∧ Invariant r path b' (s.act r i chunk) := by
  by_cases hdirs : (r i).createDirs = true
  · have hgrows := FileTree.createDirectories_growsAlong s.tree (r i).directory
    rw [Replacement.directory, hpath] at hgrows
    cases hcreate : s.tree.createDirectories (r i).directory with
    | mk t' outcome =>
      rw [Replacement.directory, hpath] at hcreate
      rw [hcreate] at hgrows
      obtain ⟨b', hb', h'⟩ := h.grow hgrows
      refine ⟨b', hb', fun hno => by simp [hdirs] at hno, ?_⟩
      rw [← hpath] at hcreate
      cases outcome with
      | ok u =>
        rw [act_eq chunk _ .creating hphase
          (by rw [Replacement.step, if_pos hdirs, Replacement.directory, hcreate])]
        refine h'.pass ?_ ?_ trivial ?_
        · simp [Phase.temp?]
        · simp [hphase, Phase.live?]
        · simp [hphase, Phase.HasLanded]
      | error e =>
        rw [act_eq chunk _ (.finished (.error e)) hphase
          (by rw [Replacement.step, if_pos hdirs, Replacement.directory, hcreate])]
        exact h'.to_finished (by rw [hphase, Phase.live?]) (by simp [hphase, Phase.HasLanded])
  · refine ⟨b, .refl, fun _ => rfl, ?_⟩
    rw [act_eq chunk _ .creating hphase (by rw [Replacement.step, if_neg hdirs])]
    refine h.pass ?_ ?_ trivial ?_
    · simp [Phase.temp?]
    · simp [hphase, Phase.live?]
    · simp [hphase, Phase.HasLanded]

theorem act_finished {outcome : Except IoError Unit} (h : Invariant r path b s)
    (hphase : s.phase i = .finished outcome) (chunk : Nat) :
    Invariant r path b (s.act r i chunk) := by
  rw [act_eq chunk _ (.finished outcome) hphase rfl]
  exact h.to_finished (by rw [hphase, Phase.live?]) (by rw [hphase])

/-- **Every act keeps the invariant**, but for those that create. -/
theorem act (h : Invariant r path b s) (hpath : (r i).path = path)
    (hpreparing : s.phase i ≠ .preparing) (hcreating : s.phase i ≠ .creating) (chunk : Nat) :
    Invariant r path b (s.act r i chunk) := by
  cases hphase : s.phase i with
  | preparing => exact absurd hphase hpreparing
  | creating => exact absurd hphase hcreating
  | writing temp left => exact h.act_writing hphase chunk
  | syncing temp => exact h.act_syncing hphase chunk
  | opening temp => exact h.act_opening hphase chunk
  | «renaming» temp => exact h.act_renaming hpath hphase chunk
  | removing temp outcome =>
    cases outcome with
    | ok u => exact h.act_removing_ok hphase chunk
    | error e => exact h.act_removing_error hpath hphase chunk
  | finished outcome => exact h.act_finished hphase chunk

/-- **Every failure keeps the invariant.** Past the creation of the temporary
file each leads to its removal, and only a failed removal leaves it. -/
theorem fail (h : Invariant r path b s) (e : IoError) : Invariant r path b (s.fail i e) := by
  have hfail : ∀ p, s.phase i = p → s.fail i e = { s with
      phase := Function.update s.phase i (p.fail e)
      left := leaves (fun _ => true) p ++ s.left } := by
    rintro p rfl
    rfl
  cases hphase : s.phase i with
  | preparing | creating =>
    rw [hfail _ hphase]
    exact h.to_finished (by rw [hphase, Phase.live?]) (by simp [hphase, Phase.HasLanded])
  | writing temp _ | syncing temp | opening temp | «renaming» temp =>
    rw [hfail _ hphase]
    exact h.to_removing (by rw [hphase, Phase.live?])
  | removing temp outcome =>
    rw [hfail _ hphase]
    cases outcome with
    | ok u => exact h.to_finished (by rw [hphase, Phase.live?]) (by simp [hphase, Phase.HasLanded])
    | error e' => exact h.leave hphase (fun l => by simp [leaves]) h.passedOver
  | finished outcome =>
    rw [hfail _ hphase]
    exact h.to_finished (by rw [hphase, Phase.live?]) (by rw [hphase])

/-- **Whatever happens next keeps the invariant**, with more directories in the
base where some are made. -/
theorem move {s' : Interleaving ι} (h : Invariant r path b s) (hpath : ∀ i, (r i).path = path)
    (hmove : Move r s s') :
    ∃ b', b.GrowsAlong (Path.ancestors (Path.directory path)) b' ∧
      ((∀ i, (r i).createDirs = false) → b' = b) ∧ Invariant r path b' s' := by
  cases hmove with
  | @makeDirectory i p t _ _ hdirs hp hmake =>
    rw [Replacement.directory, hpath i] at hp
    obtain ⟨b', hb', h'⟩ := h.grow (FileTree.makeDirectory_growsAlong hp hmake)
    refine ⟨b', hb', fun hno => ?_, h'⟩
    rw [hno i] at hdirs
    cases hdirs
  | @create i k t temp _ hphase hcreate hfresh =>
    exact ⟨b, .refl, fun _ => rfl, h.create (hpath i) hphase hcreate hfresh⟩
  | @act i chunk _ hcreating =>
    by_cases hpreparing : s.phase i = .preparing
    · obtain ⟨b', hb', hno, h'⟩ := h.act_preparing (hpath i) hpreparing chunk
      exact ⟨b', hb', fun hdirs => hno (hdirs i), h'⟩
    · exact ⟨b, .refl, fun _ => rfl, h.act (hpath i) hpreparing hcreating chunk⟩
  | @fail i e _ => exact ⟨b, .refl, fun _ => rfl, h.fail e⟩
  | crash i =>
    exact ⟨b, .refl, fun _ => rfl, h.home, h.hand, h.apart, h.used, h.neverNamed, h.fresh,
      h.abandoned, h.target, h.landed, h.passedOver, h.others, h.outcome⟩

end Invariant

/-- **The invariant holds at every moment**, over the tree from the beginning
with the directories made since. -/
theorem exists_invariant {t : FileTree} (hpath : ∀ i, (r i).path = path)
    (h : Reaches r (start t) s) :
    ∃ b, t.GrowsAlong (Path.ancestors (Path.directory path)) b ∧
      ((∀ i, (r i).createDirs = false) → b = t) ∧ Invariant r path b s := by
  induction h with
  | refl => exact ⟨t, .refl, fun _ => rfl, .start t⟩
  | tail _ hmove ih =>
    obtain ⟨b, hb, hno, hinv⟩ := ih
    obtain ⟨b', hb', hno', hinv'⟩ := hinv.move hpath hmove
    refine ⟨b', hb.trans hb', fun hdirs => ?_, hinv'⟩
    rw [hno' hdirs, hno hdirs]

end Interleaving

end DocStore
