import DocStore.Proofs.Saving.Invariant
/-!
# Every act keeps the invariant

What an act does to the tree is one of a few things: nothing but to its own
temporary file (`own_step`), to leave that file behind (`leave`), to rename it
over the target (`land`), to create it (`create`), or to add directories to
tree and base (`grow`).
-/

namespace DocStore

namespace Interleaving

variable {ι : Type} [DecidableEq ι] {r : ι → Replacement} {path : RawText} {b : FileTree}
variable {s : Interleaving ι} {i : ι} {temp : Temporary}

namespace Invariant

/-- A phase without a new temporary file brings no new one in. -/
theorem temp?_of_update {p : Phase}
    (htemp : ∀ temp, p.temp? = some temp → (s.phase i).temp? = some temp) (j : ι)
    (temp : Temporary) (hj : (Function.update s.phase i p j).temp? = some temp) :
    (s.phase j).temp? = some temp := by
  by_cases hji : j = i
  · subst hji
    rw [Function.update_self] at hj
    exact htemp temp hj
  · rwa [Function.update_of_ne hji] at hj

/-- What is nobody's live file after an act, nor was that of the one at work,
was nobody's before. -/
theorem live?_ne_of_update {p : Phase} {l : Location}
    (hlive : ∀ j u, (Function.update s.phase i p j).live? = some u → u.location ≠ l)
    (hown : ∀ u, (s.phase i).live? = some u → u.location ≠ l) (j : ι) (u : Temporary)
    (hj : (s.phase j).live? = some u) : u.location ≠ l := by
  by_cases hji : j = i
  · subst hji
    exact hown u hj
  · exact hlive j u (by rwa [Function.update_of_ne hji])

/-- **An act that changes nothing but the temporary file it works with.** The
file stays live, or nothing is left in its place. -/
theorem own_step {t' : FileTree} {p' : Phase} (h : Invariant r path b s)
    (hhome : t'.home = s.tree.home)
    (hframe : ∀ l, (∀ temp, (s.phase i).live? = some temp → temp.location ≠ l) →
      t'.get? l = s.tree.get? l)
    (htemp : ∀ temp, p'.temp? = some temp → (s.phase i).temp? = some temp)
    (hgone : ∀ temp, (s.phase i).live? = some temp →
      p'.live? = some temp ∨ t'.get? temp.location = none)
    (hhand : (r i).AtHand b t' p') (houtcome : p'.HasLanded ↔ (s.phase i).HasLanded) :
    Invariant r path b { s with tree := t', phase := Function.update s.phase i p' } := by
  have htemps := temp?_of_update htemp
  refine ⟨hhome.trans h.home, ?_, ?_, ?_, h.neverNamed, h.fresh, fun l hl => ?_, ?_,
    h.landed, h.passedOver, fun l hnot hleft hlive => ?_, ?_⟩
  · refine (Function.forall_update_iff s.phase fun j p => (r j).AtHand b t' p).2
      ⟨hhand, fun j hji => (h.hand j).congr fun temp hj => hframe _ fun temp' hi => ?_⟩
    exact h.location_ne hji (Phase.temp?_of_live? hi) (Phase.temp?_of_live? hj)
  · exact fun j j' u u' hj hj' => h.apart j j' u u' (htemps j u hj) (htemps j' u' hj')
  · exact fun j temp hj => h.used j temp (htemps j temp hj)
  · obtain ⟨hused, hnone, ⟨mode, content, hfile⟩, hno⟩ := h.abandoned l hl
    refine ⟨hused, hnone, ⟨mode, content, ?_⟩, fun j temp hj => hno j temp (htemps j temp hj)⟩
    rw [hframe l fun temp hi => hno i temp (Phase.temp?_of_live? hi), hfile]
  · -- the target is never a temporary file
    intro dir name hnames
    rw [hframe _ fun temp hi => h.neverNamed _ (h.used i temp (Phase.temp?_of_live? hi)) b dir name
      hnames]
    exact h.target dir name hnames
  · -- the place of the file at hand, or a place that the act leaves alone
    by_cases hown : ∃ temp, (s.phase i).live? = some temp ∧ temp.location = l
    · obtain ⟨temp, hi, rfl⟩ := hown
      rcases hgone temp hi with hstays | hnone
      · exact absurd rfl (hlive i temp (by simpa using hstays))
      · rw [hnone, ((h.hand i).live hi).2.1]
    · rw [hframe l fun temp hi heq => hown ⟨temp, hi, heq⟩]
      exact h.others l hnot hleft
        (live?_ne_of_update hlive fun temp hi heq => hown ⟨temp, hi, heq⟩)
  · exact (Function.forall_update_iff s.phase fun j p => j ∈ s.landed ↔ p.HasLanded).2
      ⟨(h.outcome i).trans houtcome.symm, fun j _ => h.outcome j⟩

/-- **An act that leaves the temporary file behind for good**, as one whose removal
failed or one that was passed over. -/
theorem leave {e : IoError} {left passedOver : List Location} (h : Invariant r path b s)
    (hphase : s.phase i = .removing temp (.error e))
    (habandoned : ∀ l, l ∈ left ++ passedOver ↔ l = temp.location ∨ l ∈ s.abandoned)
    (hpassed : passedOver ≠ [] → s.landed ≠ [] ∧
      ∃ dir name, b.Names path dir name ∧ dir ++ [name] ∈ b.linksThrough path) :
    Invariant r path b { s with
      phase := Function.update s.phase i (.finished (.error e))
      left := left
      passedOver := passedOver } := by
  have hi : (s.phase i).live? = some temp := by rw [hphase, Phase.live?]
  obtain ⟨-, hnone, hfile⟩ := (h.hand i).live hi
  have hused := h.used i temp (Phase.temp?_of_live? hi)
  have htemps : ∀ j temp', (Function.update s.phase i (.finished (.error e)) j).temp? = some temp' →
      j ≠ i ∧ (s.phase j).temp? = some temp' := by
    intro j temp' hj
    by_cases hji : j = i
    · subst hji
      simp [Phase.temp?] at hj
    · exact ⟨hji, by rwa [Function.update_of_ne hji] at hj⟩
  have hnotlanded : ¬ (s.phase i).HasLanded := by simp [hphase, Phase.HasLanded]
  refine ⟨h.home, ?_, ?_, ?_, h.neverNamed, h.fresh, fun l hl => ?_, h.target, h.landed, hpassed,
    fun l hnot hleft hlive => ?_, ?_⟩
  · exact (Function.forall_update_iff s.phase fun j p => (r j).AtHand b s.tree p).2
      ⟨trivial, fun j _ => h.hand j⟩
  · exact fun j j' u u' hj hj' => h.apart j j' u u' (htemps j u hj).2 (htemps j' u' hj').2
  · exact fun j u hj => h.used j u (htemps j u hj).2
  · -- the file that is left is nobody's from now on
    rcases (habandoned l).1 hl with rfl | hl
    · refine ⟨hused, hnone, hfile, fun j u hj heq => ?_⟩
      obtain ⟨hji, hj⟩ := htemps j u hj
      exact h.location_ne hji (Phase.temp?_of_live? hi) hj heq.symm
    · obtain ⟨hused, hnone, hfile, hno⟩ := h.abandoned l hl
      exact ⟨hused, hnone, hfile, fun j u hj => hno j u (htemps j u hj).2⟩
  · refine h.others l hnot (fun hl => hleft ((habandoned l).2 (Or.inr hl)))
      (live?_ne_of_update hlive fun u hu heq => ?_)
    rw [hi] at hu
    obtain rfl := Option.some.inj hu
    exact hleft ((habandoned l).2 (Or.inl heq.symm))
  · exact (Function.forall_update_iff s.phase fun j p => j ∈ s.landed ↔ p.HasLanded).2
      ⟨iff_of_false (mt (h.outcome i).1 hnotlanded) id, fun j _ => h.outcome j⟩

/-- **The rename**: the temporary file is in the place of the target. -/
theorem land {dir : Location} {name : RawText} (h : Invariant r path b s)
    (hphase : s.phase i = .renaming temp) (hnames : b.Names path dir name)
    (hslash : Path.endsInSlash path = false) (hshort : name.size ≤ nameLimit)
    (hdirectory : s.tree.get? (dir ++ [name]) ≠ some .directory) :
    Invariant r path b { s with
      tree := (s.tree.erase temp.location).put (dir ++ [name]) (.file (r i).mode (r i).content)
      phase := Function.update s.phase i (.removing temp (.ok ()))
      landed := i :: s.landed } := by
  have hi : (s.phase i).live? = some temp := by rw [hphase, Phase.live?]
  obtain ⟨hat, hnone, -⟩ := (h.hand i).live hi
  have hused := h.used i temp (Phase.temp?_of_live? hi)
  have hne := h.neverNamed _ hused b dir name hnames
  have hself : ((s.tree.erase temp.location).put (dir ++ [name])
      (.file (r i).mode (r i).content)).get? (dir ++ [name]) =
        some (.file (r i).mode (r i).content) := FileTree.get?_put_self (by simp)
  -- nothing is left under the old name, as in the base
  have hsource : ((s.tree.erase temp.location).put (dir ++ [name])
      (.file (r i).mode (r i).content)).get? temp.location = none := by
    rw [FileTree.get?_put_of_ne hne, FileTree.get?_erase_self hat.ne_nil]
  have hrest : ∀ l, l ≠ temp.location → l ≠ dir ++ [name] →
      ((s.tree.erase temp.location).put (dir ++ [name])
        (.file (r i).mode (r i).content)).get? l = s.tree.get? l := by
    intro l htemp htarget
    rw [FileTree.get?_put_of_ne htarget, FileTree.get?_erase_of_ne htemp]
  have htemps := temp?_of_update (s := s) (i := i) (p := .removing temp (.ok ()))
    (fun temp' htemp => by rwa [hphase])
  refine ⟨h.home, ?_, ?_, ?_, h.neverNamed, h.fresh, fun l hl => ?_, ?_, fun _ => ?_,
    fun hpassed => ⟨List.cons_ne_nil i s.landed, (h.passedOver hpassed).2⟩,
    fun l hnot hleft hlive => ?_, ?_⟩
  · refine (Function.forall_update_iff s.phase fun j p => (r j).AtHand b _ p).2
      ⟨hat, fun j hji => (h.hand j).congr fun temp' hj => hrest _ ?_ ?_⟩
    · exact (h.location_ne hji (Phase.temp?_of_live? hi) (Phase.temp?_of_live? hj)).symm
    · exact h.neverNamed _ (h.used j temp' (Phase.temp?_of_live? hj)) b dir name hnames
  · exact fun j j' u u' hj hj' => h.apart j j' u u' (htemps j u hj) (htemps j' u' hj')
  · exact fun j u hj => h.used j u (htemps j u hj)
  · obtain ⟨hused', hnone', hfile, hno⟩ := h.abandoned l hl
    refine ⟨hused', hnone', ?_, fun j u hj => hno j u (htemps j u hj)⟩
    rw [hrest l (hno i temp (Phase.temp?_of_live? hi)).symm
      (h.neverNamed l hused' b dir name hnames)]
    exact hfile
  · intro dir' name' hnames'
    obtain ⟨rfl, rfl⟩ := hnames.unique hnames'
    exact hself
  · refine ⟨dir, name, hnames, hslash, hshort, fun hbase => ?_⟩
    exact hdirectory (h.keeps.directory _ hbase)
  · have htarget := hnot dir name hnames
    by_cases htemp : l = temp.location
    · rw [htemp, hsource, hnone]
    · rw [hrest l htemp htarget]
      refine h.others l hnot hleft (live?_ne_of_update hlive fun u hu heq => ?_)
      rw [hi] at hu
      obtain rfl := Option.some.inj hu
      exact htemp heq.symm
  · refine (Function.forall_update_iff s.phase fun j p => j ∈ i :: s.landed ↔ p.HasLanded).2
      ⟨iff_of_true (List.mem_cons_self ..) trivial, fun j hji => ?_⟩
    rw [List.mem_cons, or_iff_right hji]
    exact h.outcome j

/-- **A new temporary file**, where nothing was and none was before. -/
theorem create {k : Nat} {t : FileTree} (h : Invariant r path b s) (hpath : (r i).path = path)
    (hphase : s.phase i = .creating) (hcreate : (r i).createNth s.tree k = .ok (t, temp))
    (hfresh : temp.location ∉ s.used) :
    Invariant r path b (s.create i t temp (r i).content) := by
  obtain ⟨hat, hfree, rfl⟩ := Temporary.isAt_of_createNth hcreate
  have hnone := h.get?_eq_none hfree
  have hnever : FileTree.NeverNamed path temp.location := hpath ▸ hat.neverNamed
  have hself : (s.tree.put temp.location (.file privateMode [])).get? temp.location =
      some (.file privateMode []) := FileTree.get?_put_self hat.ne_nil
  have hrest : ∀ l, l ≠ temp.location →
      (s.tree.put temp.location (.file privateMode [])).get? l = s.tree.get? l :=
    fun l hl => FileTree.get?_put_of_ne hl
  -- whoever has a temporary file has an older one, or is the one that created this
  have htemps : ∀ j u, (Function.update s.phase i (.writing temp (r i).content) j).temp? = some u →
      (j = i ∧ u = temp) ∨ (j ≠ i ∧ (s.phase j).temp? = some u ∧ u.location ≠ temp.location) := by
    intro j u hj
    by_cases hji : j = i
    · subst hji
      rw [Function.update_self] at hj
      exact Or.inl ⟨rfl, (Option.some.inj hj).symm⟩
    · rw [Function.update_of_ne hji] at hj
      exact Or.inr ⟨hji, hj, fun heq => hfresh (heq ▸ h.used j u hj)⟩
  refine ⟨h.home, ?_, fun j j' u u' hj hj' heq => ?_, fun j u hj => ?_, ?_, ?_,
    fun l hl => ?_, ?_, h.landed, h.passedOver, fun l hnot hleft hlive => ?_, ?_⟩
  · refine (Function.forall_update_iff s.phase fun j p => (r j).AtHand b _ p).2
      ⟨⟨h.isAt_base hat, hnone, [], List.nil_append _, hself⟩, fun j _ =>
        (h.hand j).congr fun u hj => hrest _ fun heq => ?_⟩
    exact hfresh (heq ▸ h.used j u (Phase.temp?_of_live? hj))
  · rcases htemps j u hj with ⟨rfl, rfl⟩ | ⟨-, hj, hu⟩
    · rcases htemps j' u' hj' with ⟨rfl, rfl⟩ | ⟨-, -, hu'⟩
      · rfl
      · exact absurd heq.symm hu'
    · rcases htemps j' u' hj' with ⟨rfl, rfl⟩ | ⟨-, hj', -⟩
      · exact absurd heq hu
      · exact h.apart j j' u u' hj hj' heq
  · rcases htemps j u hj with ⟨-, rfl⟩ | ⟨-, hj, -⟩
    · exact List.mem_cons_self ..
    · exact List.mem_cons_of_mem _ (h.used j u hj)
  · exact List.forall_mem_cons.2 ⟨hnever, h.neverNamed⟩
  · exact List.forall_mem_cons.2 ⟨Or.inl hnone, h.fresh⟩
  · obtain ⟨hused, hnone', hfile, hno⟩ := h.abandoned l hl
    have hl' : l ≠ temp.location := fun heq => hfresh (heq ▸ hused)
    refine ⟨List.mem_cons_of_mem _ hused, hnone', ?_, fun j u hj => ?_⟩
    · simp only [Interleaving.create, hrest l hl']
      exact hfile
    · rcases htemps j u hj with ⟨-, rfl⟩ | ⟨-, hj, -⟩
      · exact hl'.symm
      · exact hno j u hj
  · intro dir name hnames
    simp only [Interleaving.create, hrest _ (hnever b dir name hnames).symm]
    exact h.target dir name hnames
  · have hl : l ≠ temp.location := by
      intro heq
      exact hlive i temp (by simp [Interleaving.create, Phase.live?]) heq.symm
    simp only [Interleaving.create, hrest l hl]
    refine h.others l hnot hleft (live?_ne_of_update hlive fun u hu => ?_)
    rw [hphase] at hu
    cases hu
  · have hnotlanded : ¬ (s.phase i).HasLanded := by simp [hphase, Phase.HasLanded]
    exact (Function.forall_update_iff s.phase fun j p => j ∈ s.landed ↔ p.HasLanded).2
      ⟨iff_of_false (mt (h.outcome i).1 hnotlanded) id, fun j _ => h.outcome j⟩

omit [DecidableEq ι] in
/-- A directory put where nothing was, in tree and base. -/
theorem put_directory {l : Location} (h : Invariant r path b s) (hfree : s.tree.get? l = none) :
    Invariant r path (b.put l .directory) { s with tree := s.tree.put l .directory } := by
  have hgrows : b.Grows (b.put l .directory) :=
    FileTree.Grows.refl.put_directory (h.get?_eq_none hfree)
  have hne : l ≠ [] := by
    rintro rfl
    cases hfree
  -- where there is a file, no directory is put
  have hfile : ∀ m, (∃ mode content, s.tree.get? m = some (.file mode content)) → m ≠ l := by
    rintro m ⟨mode, content, hm⟩ rfl
    rw [hfree] at hm
    cases hm
  have hlive : ∀ j u, (s.phase j).live? = some u → u.location ≠ l :=
    fun j u hj => hfile _ ((h.hand j).live hj).2.2
  refine ⟨h.home, fun j => ?_, h.apart, h.used, h.neverNamed, fun m hm => ?_,
    fun m hm => ?_, fun dir name hnames => ?_, fun hlanded => ?_, fun hpassed => ?_,
    fun m hnot hleft hnolive => ?_, h.outcome⟩
  · refine ((h.hand j).congr fun u hj => ?_).grows hgrows fun u hj => ?_
    · exact FileTree.get?_put_of_ne (hlive j u hj)
    · rw [FileTree.get?_put_of_ne (hlive j u hj)]
      exact ((h.hand j).live hj).2.1
  · rcases hgrows.old_or_new m with hsame | ⟨-, hdirectory⟩
    · rw [hsame]
      exact h.fresh m hm
    · exact Or.inr hdirectory
  · obtain ⟨hused, hnone, hm, hno⟩ := h.abandoned m hm
    have hml := hfile m hm
    refine ⟨hused, by rw [FileTree.get?_put_of_ne hml, hnone], ?_, hno⟩
    simpa only [FileTree.get?_put_of_ne hml] using hm
  · -- the path may not have led anywhere before, but then nobody has renamed
    have hsame : s.tree.get? (dir ++ [name]) =
        targetEntry r (b.get? (dir ++ [name])) s.landed := by
      by_cases hnamed : ∃ dir name, b.Names path dir name
      · obtain ⟨dir', name', hnames'⟩ := hnamed
        obtain ⟨rfl, rfl⟩ := hnames.unique (hnames'.grows hgrows)
        exact h.target dir' name' hnames'
      · have hempty : s.landed = [] := by
          by_contra hlanded
          obtain ⟨dir', name', hnames', -⟩ := h.landed hlanded
          exact hnamed ⟨dir', name', hnames'⟩
        rw [hempty]
        refine h.others _ (fun dir' name' hnames' => absurd ⟨dir', name', hnames'⟩ hnamed) ?_ ?_
        · exact fun hleft => h.neverNamed _ (h.abandoned _ hleft).1 _ dir name hnames rfl
        · intro j u hj
          exact h.neverNamed _ (h.used j u (Phase.temp?_of_live? hj)) _ dir name hnames
    by_cases hl : dir ++ [name] = l
    · by_cases hlanded : s.landed = []
      · simp only [hl, hlanded, targetEntry, FileTree.get?_put_self hne]
      · obtain ⟨mode, content, htarget⟩ := exists_targetEntry r (b.get? (dir ++ [name])) hlanded
        exact absurd hl (hfile _ ⟨mode, content, hsame.trans htarget⟩)
    · simp only [FileTree.get?_put_of_ne hl]
      exact hsame
  · obtain ⟨dir, name, hnames, hslash, hshort, hdirectory⟩ := h.landed hlanded
    refine ⟨dir, name, hnames.grows hgrows, hslash, hshort, ?_⟩
    obtain ⟨mode, content, htarget⟩ := exists_targetEntry r (b.get? (dir ++ [name])) hlanded
    have hcurrent := (h.target dir name hnames).trans htarget
    rwa [FileTree.get?_put_of_ne (hfile _ ⟨mode, content, hcurrent⟩)]
  · obtain ⟨hlanded, dir, name, hnames, hlink⟩ := h.passedOver hpassed
    exact ⟨hlanded, dir, name, hnames.grows hgrows, by rwa [hnames.linksThrough_grows hgrows]⟩
  · by_cases hml : m = l
    · rw [hml, FileTree.get?_put_self hne, FileTree.get?_put_self hne]
    · simp only [FileTree.get?_put_of_ne hml]
      exact h.others m (fun dir name hnames => hnot dir name (hnames.grows hgrows)) hleft hnolive

omit [DecidableEq ι] in
/-- **Where directories are made in the tree, they are made in the base.** -/
theorem grow {paths : List RawText} {t' : FileTree} (h : Invariant r path b s)
    (hgrows : s.tree.GrowsAlong paths t') :
    ∃ b', b.GrowsAlong paths b' ∧ Invariant r path b' { s with tree := t' } := by
  induction hgrows with
  | refl => exact ⟨b, .refl, h⟩
  | make _ hp hnames hfree ih =>
    obtain ⟨b', hb', h'⟩ := ih
    exact ⟨_, hb'.make hp (h'.names_base hnames) (h'.get?_eq_none hfree), h'.put_directory hfree⟩

end Invariant

end Interleaving

end DocStore
