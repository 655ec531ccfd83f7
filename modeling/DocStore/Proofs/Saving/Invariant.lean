import DocStore.Proofs.Saving.Interleaving
import DocStore.Proofs.Files.Parents
/-!
# What holds while replacements run

Take away all temporary files, and put back what the target was: the tree that
is left is the one from the beginning, with directories created since. That
tree is the *base*, and `Invariant` tells how the tree at hand differs from it.
Every act of a replacement keeps it, and so does every failure.
-/

namespace DocStore

theorem Phase.temp?_of_live? {p : Phase} {temp : Temporary} (h : p.live? = some temp) :
    p.temp? = some temp := by
  cases p with
  | preparing | creating | finished _ => cases h
  | writing _ _ | syncing _ | opening _ | «renaming» _ => exact h
  | removing _ outcome =>
    cases outcome with
    | ok _ => cases h
    | error _ => exact h

/-- **What a phase says about the temporary file**: where it is, what is in it,
and that the base has nothing there. Once it is renamed nothing is said. -/
def Replacement.AtHand (r : Replacement) (b t : FileTree) : Phase → Prop
  | .preparing | .creating | .finished _ => True
  | .writing temp left => temp.IsAt r b ∧ b.get? temp.location = none ∧
    ∃ written, written ++ left = r.content ∧
      t.get? temp.location = some (.file privateMode written)
  | .syncing temp | .opening temp => temp.IsAt r b ∧ b.get? temp.location = none ∧
    t.get? temp.location = some (.file privateMode r.content)
  | .renaming temp => temp.IsAt r b ∧ b.get? temp.location = none ∧
    t.get? temp.location = some (.file r.mode r.content)
  | .removing temp (.error _) => temp.IsAt r b ∧ b.get? temp.location = none ∧
    ∃ mode content, t.get? temp.location = some (.file mode content)
  | .removing temp (.ok _) => temp.IsAt r b

namespace Replacement

variable {r : Replacement} {b t t' : FileTree} {p : Phase} {temp : Temporary}

/-- A live temporary file is a file, and not in the base. -/
theorem AtHand.live (h : r.AtHand b t p) (hlive : p.live? = some temp) :
    temp.IsAt r b ∧ b.get? temp.location = none ∧
      ∃ mode content, t.get? temp.location = some (.file mode content) := by
  cases p with
  | preparing | creating | finished _ => cases hlive
  | writing temp' left =>
    obtain rfl := Option.some.inj hlive
    obtain ⟨hat, hfree, written, -, hfile⟩ := h
    exact ⟨hat, hfree, _, written, hfile⟩
  | syncing temp' | opening temp' | «renaming» temp' =>
    obtain rfl := Option.some.inj hlive
    obtain ⟨hat, hfree, hfile⟩ := h
    exact ⟨hat, hfree, _, _, hfile⟩
  | removing temp' outcome =>
    cases outcome with
    | ok _ => cases hlive
    | error e =>
      obtain rfl := Option.some.inj hlive
      exact h

/-- Only the live temporary file itself matters. -/
theorem AtHand.congr (h : r.AtHand b t p)
    (hsame : ∀ temp, p.live? = some temp → t'.get? temp.location = t.get? temp.location) :
    r.AtHand b t' p := by
  cases p with
  | preparing | creating | finished _ => trivial
  | writing temp left | syncing temp | opening temp | «renaming» temp =>
    rw [AtHand, hsame temp rfl]
    exact h
  | removing temp outcome =>
    cases outcome with
    | ok _ => exact h
    | error e =>
      rw [AtHand, hsame temp rfl]
      exact h

/-- The base may get more directories, but not where the file is. -/
theorem AtHand.grows {b' : FileTree} (h : r.AtHand b t p) (hgrows : b.Grows b')
    (hfree : ∀ temp, p.live? = some temp → b'.get? temp.location = none) : r.AtHand b' t p := by
  cases p with
  | preparing | creating | finished _ => trivial
  | writing temp left | syncing temp | opening temp | «renaming» temp =>
    exact ⟨h.1.grows hgrows, hfree temp rfl, h.2.2⟩
  | removing temp outcome =>
    cases outcome with
    | error e => exact ⟨h.1.grows hgrows, hfree temp rfl, h.2.2⟩
    | ok _ => exact Temporary.IsAt.grows h hgrows

end Replacement

namespace Interleaving

variable {ι : Type} {r : ι → Replacement} {path : RawText} {b : FileTree} {s : Interleaving ι}

/-- **How the tree at hand differs from its base**: by live temporary files, by
those left behind, and by the target once a rename was done. -/
structure Invariant (r : ι → Replacement) (path : RawText) (b : FileTree)
    (s : Interleaving ι) : Prop where
  home : s.tree.home = b.home
  hand : ∀ i, (r i).AtHand b s.tree (s.phase i)
  /-- No two work with the same file. -/
  apart : ∀ i j temp temp', (s.phase i).temp? = some temp → (s.phase j).temp? = some temp' →
    temp.location = temp'.location → i = j
  used : ∀ i temp, (s.phase i).temp? = some temp → temp.location ∈ s.used
  neverNamed : ∀ l ∈ s.used, FileTree.NeverNamed path l
  fresh : ∀ l ∈ s.used, b.get? l = none ∨ b.get? l = some .directory
  /-- What was abandoned is still there, and nobody's. -/
  abandoned : ∀ l ∈ s.abandoned, l ∈ s.used ∧ b.get? l = none ∧
    (∃ mode content, s.tree.get? l = some (.file mode content)) ∧
    ∀ i temp, (s.phase i).temp? = some temp → temp.location ≠ l
  /-- **The target**: as in the base, or what the latest rename put there. -/
  target : ∀ dir name, b.Names path dir name →
    s.tree.get? (dir ++ [name]) = targetEntry r (b.get? (dir ++ [name])) s.landed
  landed : s.landed ≠ [] → ∃ dir name, b.Names path dir name ∧ Path.endsInSlash path = false ∧
    name.size ≤ nameLimit ∧ b.get? (dir ++ [name]) ≠ some .directory
  /-- A file is passed over only where the path leads through the target, a link that
  was replaced. -/
  passedOver : s.passedOver ≠ [] → s.landed ≠ [] ∧
    ∃ dir name, b.Names path dir name ∧ dir ++ [name] ∈ b.linksThrough path
  others : ∀ l, (∀ dir name, b.Names path dir name → l ≠ dir ++ [name]) → l ∉ s.abandoned →
    (∀ i temp, (s.phase i).live? = some temp → temp.location ≠ l) → s.tree.get? l = b.get? l
  /-- Those who renamed are those whose outcome will be good. -/
  outcome : ∀ i, i ∈ s.landed ↔ (s.phase i).HasLanded

namespace Invariant

/-- Replacements without temporary files have changed nothing. -/
theorem of_idle (t : FileTree) {phase : ι → Phase} (htemp : ∀ i, (phase i).temp? = none)
    (hlanded : ∀ i, ¬ (phase i).HasLanded) :
    Invariant r path t (idle t phase) := by
  have hlive : ∀ i, (phase i).live? = none := by
    intro i
    cases hlive : (phase i).live? with
    | none => rfl
    | some temp =>
      rw [← htemp i, Phase.temp?_of_live? hlive]
  have hhand : ∀ i, (r i).AtHand t t (phase i) := by
    intro i
    have hnone := htemp i
    cases hphase : phase i with
    | preparing | creating | finished _ => trivial
    | _ =>
      rw [hphase] at hnone
      cases hnone
  refine ⟨rfl, hhand, ?_, ?_, ?_, ?_, ?_, fun _ _ _ => rfl, ?_, ?_, fun _ _ _ _ => rfl, ?_⟩
  all_goals simp [idle, Interleaving.start, htemp, hlanded]

theorem start (t : FileTree) : Invariant r path t (Interleaving.start t) :=
  of_idle t (fun _ => rfl) fun _ => id

/-- The file of one is not that of another. -/
theorem location_ne {i j : ι} {temp temp' : Temporary} (h : Invariant r path b s) (hne : j ≠ i)
    (hi : (s.phase i).temp? = some temp) (hj : (s.phase j).temp? = some temp') :
    temp.location ≠ temp'.location :=
  fun heq => hne (h.apart i j temp temp' hi hj heq).symm

/-- Where nobody's outcome will be good, nobody has renamed. -/
theorem landed_eq_nil (h : Invariant r path b s) (hno : ∀ i, ¬ (s.phase i).HasLanded) :
    s.landed = [] :=
  List.eq_nil_iff_forall_not_mem.2 fun i hi => hno i ((h.outcome i).1 hi)

/-- **Each entry is that of the base, or a file.** A file that the base does
not have is in the place of nothing, or is the target. -/
theorem entry (h : Invariant r path b s) (l : Location) :
    s.tree.get? l = b.get? l ∨
    ((∃ mode content, s.tree.get? l = some (.file mode content)) ∧
      (b.get? l = none ∨ (s.landed ≠ [] ∧ b.get? l ≠ some .directory ∧
        ∃ dir name, b.Names path dir name ∧ l = dir ++ [name]))) := by
  -- the target, a file left behind, a live file, and all other places
  by_cases htarget : ∃ dir name, b.Names path dir name ∧ l = dir ++ [name]
  · obtain ⟨dir, name, hnames, rfl⟩ := htarget
    have hentry := h.target dir name hnames
    by_cases hlanded : s.landed = []
    · rw [hlanded] at hentry
      exact Or.inl hentry
    · obtain ⟨mode, content, hfile⟩ := exists_targetEntry r (b.get? (dir ++ [name])) hlanded
      obtain ⟨dir', name', hnames', -, -, hdirectory⟩ := h.landed hlanded
      obtain ⟨rfl, rfl⟩ := hnames.unique hnames'
      exact Or.inr ⟨⟨mode, content, hentry.trans hfile⟩,
        Or.inr ⟨hlanded, hdirectory, dir', name', hnames, rfl⟩⟩
  · by_cases hleft : l ∈ s.abandoned
    · obtain ⟨-, hnone, hfile, -⟩ := h.abandoned l hleft
      exact Or.inr ⟨hfile, Or.inl hnone⟩
    · by_cases hlive : ∃ i temp, (s.phase i).live? = some temp ∧ temp.location = l
      · obtain ⟨i, temp, hlive, rfl⟩ := hlive
        obtain ⟨-, hnone, hfile⟩ := (h.hand i).live hlive
        exact Or.inr ⟨hfile, Or.inl hnone⟩
      · refine Or.inl (h.others l ?_ hleft ?_)
        · rintro dir name hnames rfl
          exact htarget ⟨dir, name, hnames, rfl⟩
        · intro i temp hsome heq
          exact hlive ⟨i, temp, hsome, heq⟩

/-- What is free in the tree is free in the base. -/
theorem get?_eq_none (h : Invariant r path b s) {l : Location} (hfree : s.tree.get? l = none) :
    b.get? l = none := by
  rcases h.entry l with hsame | ⟨⟨mode, content, hfile⟩, -⟩
  · rw [← hsame, hfree]
  · rw [hfile] at hfree
    cases hfree

/-- **The tree keeps the directories and links of its base**, but for a link
that was the target. -/
theorem keeps (h : Invariant r path b s) : b.Keeps s.tree := by
  refine ⟨h.home, fun l hdirectory => ?_, fun l target hlink => ?_⟩
  · rcases h.entry l with hsame | ⟨-, hnone | ⟨-, hno, -⟩⟩
    · rw [hsame, hdirectory]
    · rw [hnone] at hdirectory
      cases hdirectory
    · exact absurd hdirectory hno
  · rcases h.entry l with hsame | ⟨hfile, -⟩
    · exact Or.inl (by rw [hsame, hlink])
    · exact Or.inr hfile

/-- **A link that has become a file was the target.** -/
theorem target_of_link (h : Invariant r path b s) {l : Location} {aim : RawText} {mode : Nat}
    {content : List UInt8} (hlink : b.get? l = some (.link aim))
    (hfile : s.tree.get? l = some (.file mode content)) :
    s.landed ≠ [] ∧ ∃ dir name, b.Names path dir name ∧ l = dir ++ [name] := by
  rcases h.entry l with hsame | ⟨-, hnone | ⟨hlanded, -, htarget⟩⟩
  · rw [hsame, hlink] at hfile
    cases hfile
  · rw [hnone] at hlink
    cases hlink
  · exact ⟨hlanded, htarget⟩

/-- The base has all directories and links of the tree. -/
theorem get?_base {l : Location} {e : Entry} (h : Invariant r path b s)
    (he : s.tree.get? l = some e) (hfile : ∀ mode content, e ≠ .file mode content) :
    b.get? l = some e := by
  rcases h.entry l with hsame | ⟨⟨mode, content, hfile'⟩, -⟩
  · rw [← hsame, he]
  · rw [he, Option.some.injEq] at hfile'
    exact absurd hfile' (hfile mode content)

/-- **What the tree names by a path, the base names by it.** -/
theorem names_base {p : RawText} {dir : Location} {name : RawText} (h : Invariant r path b s)
    (hnames : s.tree.Names p dir name) : b.Names p dir name := by
  -- what the base has more than the tree are files, and no walk follows those
  have hkeeps : s.tree.Keeps b :=
    ⟨h.home.symm, fun l hl => h.get?_base hl (fun _ _ => by simp),
      fun l target hl => Or.inl (h.get?_base hl (fun _ _ => by simp))⟩
  refine hnames.mono hkeeps fun l hl => ?_
  obtain ⟨target, hlink⟩ := FileTree.exists_link_of_mem_linksFollowed hl
  rw [hlink, h.get?_base hlink (fun _ _ => by simp)]

/-- And the other way round, as long as nobody has renamed. -/
theorem names_of_base {p name : RawText} {dir : Location} (h : Invariant r path b s)
    (hlanded : s.landed = []) (hnames : b.Names p dir name) : s.tree.Names p dir name := by
  refine hnames.mono h.keeps fun l hl => ?_
  obtain ⟨aim, hlink⟩ := FileTree.exists_link_of_mem_linksFollowed hl
  rcases h.entry l with hsame | ⟨-, hnone | ⟨hne, -⟩⟩
  · exact hsame
  · rw [hnone] at hlink
    cases hlink
  · exact absurd hlanded hne

/-- A temporary file that the tree leads to, the base leads to. -/
theorem isAt_base {q : Replacement} {temp : Temporary} (h : Invariant r path b s)
    (hat : temp.IsAt q s.tree) : temp.IsAt q b := by
  obtain ⟨k, dir, rfl, hshort, hnames⟩ := hat
  exact ⟨k, dir, rfl, hshort, h.names_base hnames⟩

/-- And the other way round, as long as nobody has renamed. -/
theorem isAt_of_base {q : Replacement} {temp : Temporary} (h : Invariant r path b s)
    (hlanded : s.landed = []) (hat : temp.IsAt q b) : temp.IsAt q s.tree := by
  obtain ⟨k, dir, rfl, hshort, hnames⟩ := hat
  exact ⟨k, dir, rfl, hshort, h.names_of_base hlanded hnames⟩

/-- **The path of a temporary file leads nowhere any more only where that of the target
leads through the target**, a link that was replaced. -/
theorem link_of_lost {i : ι} {temp : Temporary} (h : Invariant r path b s)
    (hpath : (r i).path = path) (hat : temp.IsAt (r i) b)
    (hlost : ∀ dir name, ¬ s.tree.Names temp.path dir name) :
    s.landed ≠ [] ∧ ∃ dir name, b.Names path dir name ∧ dir ++ [name] ∈ b.linksThrough path := by
  obtain ⟨k, tempDir, rfl, -, htemp⟩ := hat
  rcases htemp.of_keeps h.keeps with ⟨htemp', -⟩ | ⟨-, -, l, hl, mode, content, hfile⟩
  · exact absurd htemp' (hlost tempDir _)
  · -- a link on the way to the temporary file was replaced, so it was the target
    obtain ⟨aim, hlink⟩ := FileTree.exists_link_of_mem_linksFollowed hl
    obtain ⟨hlanded, dir, name, hnames, -⟩ := h.target_of_link hlink hfile
    obtain ⟨_, _, -, hslash, -⟩ := h.landed hlanded
    rcases hnames.of_keeps h.keeps with ⟨hnames', -⟩ | ⟨-, -, l', hl', mode', content', hfile'⟩
    · -- the tree still leads to the directory, and from there to the temporary file
      refine absurd ?_ (hlost dir ((r i).tempName k))
      rw [Replacement.tempPath_eq, Replacement.directory, hpath]
      refine FileTree.names_join (hnames'.resolve_directory hslash).1
        Replacement.tempName_ne_empty Replacement.not_mem_tempName htemp.ne_dot htemp.ne_dots ?_
      rw [← hpath]
      exact htemp.accepted
    · obtain ⟨aim', hlink'⟩ := FileTree.exists_link_of_mem_linksFollowed hl'
      obtain ⟨-, dir', name', hnames', rfl⟩ := h.target_of_link hlink' hfile'
      exact ⟨hlanded, dir', name', hnames', hl'⟩

/-- **The removal of a temporary file succeeds, or passes the file over.** It never
fails on its own. -/
theorem removal_cases {i : ι} {temp : Temporary} (h : Invariant r path b s) (hpath : (r i).path = path)
    (hlive : (s.phase i).live? = some temp) :
    (temp.isPassedOver s.tree = false ∧ temp.removalFails s.tree = false ∧
      s.tree.remove temp.path = .ok (s.tree.erase temp.location)) ∨
    (temp.isPassedOver s.tree = true ∧ temp.removalFails s.tree = false ∧ s.landed ≠ [] ∧
      ∃ dir name, b.Names path dir name ∧ dir ++ [name] ∈ b.linksThrough path) := by
  obtain ⟨hat, -, mode, content, hfile⟩ := (h.hand i).live hlive
  rcases hat.of_keeps h.keeps with hat' | ⟨hlost, hnot, -⟩
  · have hleads : s.tree.leadsSomewhere temp.path = true := by
      rw [FileTree.leadsSomewhere, hat'.resolve_eq hfile]
      rfl
    have hremove := hat'.remove_eq hfile
    refine Or.inl ⟨?_, ?_, hremove⟩
    · rw [Temporary.isPassedOver, hleads, Bool.not_true]
    · rw [Temporary.removalFails, hleads, hremove]
      rfl
  · have hleads : s.tree.leadsSomewhere temp.path = false := by
      rw [FileTree.leadsSomewhere, hlost]
      rfl
    refine Or.inr ⟨?_, ?_, h.link_of_lost hpath hat hnot⟩
    · rw [Temporary.isPassedOver, hleads, Bool.not_false]
    · rw [Temporary.removalFails, hleads, Bool.false_and]

end Invariant

end Interleaving

end DocStore
