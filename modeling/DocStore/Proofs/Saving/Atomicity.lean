import DocStore.Proofs.Saving.AllOrNothing
/-!
# Replacement is atomic

Whatever the replacements of one target do side by side, however they fail and
crash: the target is what it was, or has one of the contents in full. When all
have come to an end, it has the content that was renamed last, and nothing else
is different from the beginning, but for temporary files that were passed over
(`target_whole`). That happens where the path of the target leads through the
target, a link that the first rename replaced: the others find their files no
more, and leave them (`temporary_passed_over`).
-/

namespace DocStore

namespace Interleaving

variable {ι : Type} {r : ι → Replacement} {path : RawText} {b t : FileTree}
variable {s s' : Interleaving ι}

variable [DecidableEq ι]

/-- Two replacements of one target that differ in content and mode. -/
def twins (path : RawText) (first : Bool) : Replacement :=
  { path, content := if first then [0x31] else [0x32], tries := [0, 1], isPrivate := first }

/-- Both can have their temporary files at the same time. -/
theorem exists_both_writing {r : Bool → Replacement} (hdirs : ∀ i, (r i).createDirs = false)
    {u v : FileTree} {temp temp' : Temporary} (hfirst : (r true).createNth t 0 = .ok (u, temp))
    (hsecond : (r false).createNth u 1 = .ok (v, temp')) (hne : temp'.location ≠ temp.location) :
    ∃ s, Reaches r (start t) s ∧ s.tree = v ∧ s.phase true = .writing temp (r true).content ∧
      s.phase false = .writing temp' (r false).content ∧ s.crashed = [] ∧
      s.used = [temp'.location, temp.location] ∧ s.left = [] := by
  obtain ⟨s, hreach, htree, hphase, hcrashed, hused, hleft⟩ :=
    exists_reaches_writing (s := start t) (i := true) List.not_mem_nil rfl (hdirs true) hfirst
      List.not_mem_nil
  rw [← htree] at hsecond
  obtain ⟨s', hreach', htree', hphase', hcrashed', hused', hleft'⟩ :=
    exists_reaches_writing (r := r) (i := false) (by rw [hcrashed]; exact List.not_mem_nil)
      (by rw [hphase]; rfl) (hdirs false) hsecond (by rw [hused]; simpa [start] using hne)
  refine ⟨s', hreach.trans hreach', htree', ?_, ?_, hcrashed'.trans hcrashed, ?_,
    hleft'.trans hleft⟩
  · rw [hphase', hphase]
    rfl
  · rw [hphase']
    rfl
  · rw [hused', hused]
    rfl

/-- **A replacement that has its temporary file can be the first to rename**, where the target
can be replaced. -/
theorem Invariant.exists_advances_first {i : ι} {temp : Temporary} {dir : Location} {name : RawText}
    (h : Invariant r path b s) (hpath : (r i).path = path) (hup : i ∉ s.crashed)
    (hnobody : ∀ i, ¬ (s.phase i).HasLanded) (hphase : s.phase i = .writing temp (r i).content)
    (hnames : b.Names path dir name) (hslash : Path.endsInSlash path = false)
    (hshort : name.size ≤ nameLimit) (hwas : b.get? (dir ++ [name]) ≠ some .directory) :
    ∃ s', Advances r i s s' ∧ Invariant r path b s' ∧ s'.phase i = .finished (.ok ()) := by
  have hlanded := h.landed_eq_nil hnobody
  have hhand := h.hand i
  rw [hphase] at hhand
  obtain ⟨hat, -, written, hwritten, hempty⟩ := hhand
  rw [List.append_left_eq_self.1 hwritten] at hempty
  have htarget := h.target dir name hnames
  rw [hlanded, targetEntry] at htarget
  subst hpath
  obtain ⟨t', hrun⟩ := Replacement.exists_runFrom_writing (h.isAt_of_base hlanded hat) hempty
    (h.names_of_base hlanded hnames) hslash hshort (by rwa [htarget])
  obtain ⟨s', hadvances, hinv, -, hend, -⟩ :=
    h.exists_advances_runFrom 5 Nat.le.refl (by simp [Phase.ahead]) rfl hup hphase
  rw [hrun] at hend
  exact ⟨s', hadvances, hinv, hend⟩

/-! ## A run to the end -/

/-- A replacement that makes the directories of its target, and among them the target. -/
def intoItself : Replacement :=
  { path := "a/../a", content := [0x31], tries := [0], createDirs := true }

/-- **A replacement behind another under that path passes its file over**, once it comes to
open it. -/
theorem exists_passedOver_way {s : Interleaving Bool} {temp : Temporary}
    (h : Invariant (twins "way/../way") "way/../way" linkedShelf s) (hlanded : s.landed ≠ [])
    (hup : false ∉ s.crashed) (hphase : s.phase false = .opening temp) :
    ∃ s', Advances (twins "way/../way") false s s' ∧
      s'.phase false = .finished (.error .notDirectory) ∧ temp.location ∈ s'.passedOver := by
  obtain ⟨hnames, -⟩ := linkedShelf.names_way
  have hhand := h.hand false
  rw [hphase] at hhand
  obtain ⟨⟨k, dir, rfl, -, htemp⟩, -⟩ := hhand
  refine h.exists_passedOver rfl hup hphase rfl ?_
  rcases htemp.of_keeps h.keeps with ⟨-, hsame⟩ | ⟨hlost, -⟩
  · -- the link on the way is a file by now
    have hlink := hsame ["way"] (by
      rw [linkedShelf.linksThrough_tempPath rfl]
      exact List.mem_singleton_self _)
    obtain ⟨mode, content, hfile⟩ :=
      exists_targetEntry (twins "way/../way") (linkedShelf.get? ([] ++ [("way" : RawText)])) hlanded
    have htarget := (h.target [] "way" hnames).trans hfile
    rw [List.nil_append, hlink, linkedShelf.get?_way] at htarget
    cases htarget
  · exact hlost

end Interleaving

end DocStore
