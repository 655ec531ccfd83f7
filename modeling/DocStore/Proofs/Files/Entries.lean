import DocStore.Proofs.Files.Walks
/-!
# The entry that a path names

Creating, renaming and removing work on one entry: the last name of a path, in
the directory that the rest of it leads to. Other trees name the same entry by
the same path as long as they keep their directories and links. A path that
leads through a link which became a file names nothing any more
(`Names.of_keeps`).
-/

namespace DocStore

namespace FileTree

variable {t t' : FileTree} {path name : RawText} {dir l : Location} {e : Entry}

/-- **The entry that a path names**: the directory it lies in, and its name
there. Nothing need have that name yet. -/
structure Names (t : FileTree) (path : RawText) (dir : Location) (name : RawText) : Prop where
  accepted : checkPath path = .ok ()
  last : (Path.pieces path).getLast? = some name
  ne_dot : name ≠ Path.dot
  ne_dots : name ≠ Path.dots
  walk : t.locate linkLimit (t.start path) (Path.pieces path).dropLast = .ok (dir, some .directory)

/-- **The links that a path leads through** on the way to its last name. -/
def linksThrough (t : FileTree) (path : RawText) : List Location :=
  t.linksFollowed linkLimit (t.start path) (Path.pieces path).dropLast

/-- An act that goes on after another was a success twice. -/
theorem bind_eq_ok {α β : Type} {x : Except IoError α} {f : α → Except IoError β} {b : β} :
    x >>= f = .ok b ↔ ∃ a, x = .ok a ∧ f a = .ok b := by
  cases x with
  | error e => simp [bind, Except.bind]
  | ok a => simp [bind, Except.bind]

/-- What `place` finds for a last name is the entry that the path names. -/
theorem place_eq_name_iff {slash : Bool} :
    t.place path = .ok (dir, .name name slash) ↔
      t.Names path dir name ∧ slash = Path.endsInSlash path := by
  constructor
  · intro h
    rw [place] at h
    obtain ⟨⟨⟩, haccepted, h⟩ := bind_eq_ok.1 h
    obtain ⟨⟨d, entry⟩, hwalk, h⟩ := bind_eq_ok.1 h
    dsimp only at h
    split at h
    next =>
      split at h
      next last hlast =>
        split at h
        next => simp [pure, Except.pure] at h
        next hfixed =>
          simp only [pure, Except.pure, Except.ok.injEq, Prod.mk.injEq, Last.name.injEq] at h
          obtain ⟨rfl, rfl, rfl⟩ := h
          simp only [Bool.or_eq_true, decide_eq_true_eq, not_or] at hfixed
          exact ⟨⟨haccepted, hlast, hfixed.1, hfixed.2, hwalk⟩, rfl⟩
      next => simp [pure, Except.pure] at h
    next => cases h
    next => cases h
  · rintro ⟨h, rfl⟩
    simp [place, h.accepted, h.walk, h.last, h.ne_dot, h.ne_dots, bind, Except.bind, pure,
      Except.pure]

namespace Names

variable (h : t.Names path dir name)
include h

theorem pieces_eq : Path.pieces path = (Path.pieces path).dropLast ++ [name] := by
  obtain ⟨front, hfront⟩ := List.getLast?_eq_some_iff.1 h.last
  rw [hfront, List.dropLast_concat]

theorem get?_dir : t.get? dir = some .directory := get?_of_locate h.walk

/-- A path names one entry. -/
theorem unique {dir' : Location} {name' : RawText} (h' : t.Names path dir' name') :
    dir' = dir ∧ name' = name := by
  have hwalk := h.walk.symm.trans h'.walk
  have hlast := h.last.symm.trans h'.last
  simp only [Except.ok.injEq, Prod.mk.injEq, and_true] at hwalk
  exact ⟨hwalk.symm, (Option.some.inj hlast).symm⟩

/-- **A path that does not end in a slash walks to the entry that it names.** -/
theorem locate_steps (hslash : Path.endsInSlash path = false) :
    ∃ k, t.locate linkLimit (t.start path) (Path.steps path) = t.locate k dir [name] := by
  obtain ⟨k, hk⟩ := locate_append h.walk
  refine ⟨k, ?_⟩
  rw [Path.steps, hslash, if_neg Bool.false_ne_true, List.append_nil, h.pieces_eq, hk]

/-- What lies at the entry is what the path leads to, unless it is a link. -/
theorem resolve_eq (hslash : Path.endsInSlash path = false)
    (hshort : name.size ≤ nameLimit) (he : t.get? (dir ++ [name]) = some e)
    (hlink : ∀ target, e ≠ .link target) : t.resolve path = .ok (dir ++ [name], e) := by
  obtain ⟨k, hk⟩ := h.locate_steps hslash
  rw [locate_name h.get?_dir ⟨h.ne_dot, h.ne_dots, hshort⟩ he hlink, locate_nil, he] at hk
  simp [resolve, h.accepted, hk, bind, Except.bind, pure, Except.pure]

/-! ## The same path in another tree -/

/-- **A tree that keeps directories and links names the same entry**, unless
the path leads through a link that became a file. Then it names nothing, and
leads nowhere. -/
theorem of_keeps (hkeeps : t.Keeps t') :
    (t'.Names path dir name ∧ ∀ l ∈ t.linksThrough path, t'.get? l = t.get? l) ∨
    (t'.resolve path = .error .notDirectory ∧ (∀ dir name, ¬ t'.Names path dir name) ∧
      ∃ l ∈ t.linksThrough path, ∃ mode content, t'.get? l = some (.file mode content)) := by
  have hstart : t'.start path = t.start path := by simp only [start, hkeeps.home]
  rcases locate_of_keeps hkeeps h.walk with ⟨hwalk, hsame⟩ | ⟨hfail, hfile⟩
  · exact Or.inl ⟨⟨h.accepted, h.last, h.ne_dot, h.ne_dots, by rw [hstart, hwalk]⟩, hsame⟩
  · refine Or.inr ⟨?_, fun d n hnames => ?_, hfile⟩
    · have hsteps : t'.locate linkLimit (t'.start path) (Path.steps path) =
          .error .notDirectory := by
        rw [hstart, Path.steps, h.pieces_eq, List.append_assoc]
        exact hfail _ (by simp)
      simp [resolve, h.accepted, hsteps, bind, Except.bind]
    · -- a walk that ends at a directory can go on
      obtain ⟨k, hk⟩ := locate_append hnames.walk
      have hstep := hk [Path.dot]
      rw [hstart, hfail [Path.dot] (by simp), locate.eq_def] at hstep
      simp [hnames.get?_dir, locate_nil] at hstep

/-- A tree that keeps directories and the links on the way names the same
entry. -/
theorem mono (hkeeps : t.Keeps t') (hlinks : ∀ l ∈ t.linksThrough path, t'.get? l = t.get? l) :
    t'.Names path dir name := by
  rcases h.of_keeps hkeeps with ⟨hnames, -⟩ | ⟨-, -, l, hl, mode, content, hfile⟩
  · exact hnames
  · obtain ⟨target, hlink⟩ := exists_link_of_mem_linksFollowed hl
    rw [hlinks l hl, hlink] at hfile
    cases hfile

/-- More directories do not change what a path names. -/
theorem grows (hgrows : t.Grows t') : t'.Names path dir name := by
  refine h.mono hgrows.keeps fun l hl => ?_
  obtain ⟨target, hlink⟩ := exists_link_of_mem_linksFollowed hl
  rw [hlink, hgrows.get?_eq_some hlink]

/-- Nor which links it leads through. -/
theorem linksThrough_grows (hgrows : t.Grows t') : t'.linksThrough path = t.linksThrough path := by
  have hstart : t'.start path = t.start path := by simp only [start, hgrows.home]
  rw [linksThrough, hstart, linksFollowed_of_grows hgrows h.walk, linksThrough]

/-- A file put where no directory and no link is does not change what a path
names. -/
theorem put_file {l : Location} {mode : Nat} {content : List UInt8}
    (hdirectory : t.get? l ≠ some .directory) (hlink : ∀ target, t.get? l ≠ some (.link target)) :
    (t.put l (.file mode content)).Names path dir name := by
  have hkeeps : t.Keeps (t.put l (.file mode content)) := by
    refine ⟨rfl, fun m hm => ?_, fun m target hm => Or.inl ?_⟩
    · rw [get?_put_of_ne (by rintro rfl; exact hdirectory hm), hm]
    · rw [get?_put_of_ne (by rintro rfl; exact hlink target hm), hm]
  refine h.mono hkeeps fun m hm => ?_
  obtain ⟨target, htarget⟩ := exists_link_of_mem_linksFollowed hm
  rw [get?_put_of_ne (by rintro rfl; exact hlink target htarget)]

end Names

end FileTree

end DocStore
