import DocStore.Files.Operations
import DocStore.Proofs.Files.Entries
/-!
# What operations on files change

Every operation works on the entry that its path names, and on nothing else.
Creating directories changes nothing that was there, even where it fails
halfway.
-/

namespace DocStore

namespace FileTree

variable {t t' : FileTree} {path name : RawText} {dir l : Location} {e : Entry}

/-- **Creating** puts the entry where nothing was. -/
theorem create_eq_ok (h : t.create path e = .ok (t', l)) :
    ∃ dir name, t.Names path dir name ∧ name.size ≤ nameLimit ∧ l = dir ++ [name] ∧
      t.get? l = none ∧ t' = t.put l e := by
  obtain ⟨⟨dir, last⟩, hplace, h⟩ := bind_eq_ok.1 h
  cases last with
  | fixed => cases h
  | name name slash =>
    dsimp only at h
    split at h
    next => cases h
    next hshort =>
      split at h
      next => cases h
      next hfree =>
        simp only [pure, Except.pure, Except.ok.injEq, Prod.mk.injEq] at h
        obtain ⟨rfl, rfl⟩ := h
        exact ⟨dir, name, (place_eq_name_iff.1 hplace).1, Nat.not_lt.1 hshort, rfl, hfree, rfl⟩

/-- What is free can be created under a path that names it. -/
theorem create_eq (h : t.Names path dir name) (hshort : name.size ≤ nameLimit)
    (hfree : t.get? (dir ++ [name]) = none) (e : Entry) :
    t.create path e = .ok (t.put (dir ++ [name]) e, dir ++ [name]) := by
  have hplace := place_eq_name_iff.2 ⟨h, rfl⟩
  simp [create, hplace, hfree, Nat.not_lt.2 hshort, bind, Except.bind, pure, Except.pure]

/-- What is taken cannot be created. -/
theorem create_eq_error {old : Entry} (h : t.Names path dir name)
    (hshort : name.size ≤ nameLimit) (htaken : t.get? (dir ++ [name]) = some old)
    (e : Entry) : t.create path e = .error .alreadyThere := by
  have hplace := place_eq_name_iff.2 ⟨h, rfl⟩
  simp [create, hplace, htaken, Nat.not_lt.2 hshort, bind, Except.bind]

/-- **Renaming** takes the entry away under its old name and puts it in the
place of whatever else than a directory had the new one. -/
theorem rename_eq_ok {old new : RawText} (h : t.rename old new = .ok t') :
    ∃ oldDir oldName newDir newName e,
      t.Names old oldDir oldName ∧ t.Names new newDir newName ∧
      Path.endsInSlash new = false ∧ newName.size ≤ nameLimit ∧
      t.get? (oldDir ++ [oldName]) = some e ∧ t.get? (newDir ++ [newName]) ≠ some .directory ∧
      t' = (t.erase (oldDir ++ [oldName])).put (newDir ++ [newName]) e := by
  obtain ⟨⟨oldDir, oldLast⟩, hold, h⟩ := bind_eq_ok.1 h
  obtain ⟨⟨newDir, newLast⟩, hnew, h⟩ := bind_eq_ok.1 h
  cases oldLast with
  | fixed => cases h
  | name oldName oldSlash =>
    cases newLast with
    | fixed => cases h
    | name newName newSlash =>
      dsimp only at h
      split at h
      next => cases h
      next e he =>
        split at h
        next => cases h
        next hshort =>
          split at h
          next => cases h
          next hslash =>
            split at h
            next => cases h
            next hdirectory =>
              simp only [pure, Except.pure, Except.ok.injEq] at h
              have hnew := place_eq_name_iff.1 hnew
              exact ⟨oldDir, oldName, newDir, newName, e, (place_eq_name_iff.1 hold).1, hnew.1,
                by rw [← hnew.2]; exact Bool.eq_false_iff.2 hslash, Nat.not_lt.1 hshort, he,
                hdirectory, h.symm⟩

/-- A file can be renamed over anything else than a directory. -/
theorem rename_eq {old new newName : RawText} {newDir : Location} (hold : t.Names old dir name)
    (hnew : t.Names new newDir newName) (hslash : Path.endsInSlash new = false)
    (hshort : newName.size ≤ nameLimit) (he : t.get? (dir ++ [name]) = some e)
    (hdirectory : t.get? (newDir ++ [newName]) ≠ some .directory) :
    t.rename old new = .ok ((t.erase (dir ++ [name])).put (newDir ++ [newName]) e) := by
  have hplaceOld := place_eq_name_iff.2 ⟨hold, rfl⟩
  have hplaceNew := place_eq_name_iff.2 ⟨hnew, hslash.symm⟩
  simp [rename, hplaceOld, hplaceNew, he, Nat.not_lt.2 hshort, hdirectory, bind, Except.bind, pure,
    Except.pure]

/-- **Removing** takes away an entry that is no directory. -/
theorem remove_eq_ok (h : t.remove path = .ok t') :
    ∃ dir name e, t.Names path dir name ∧ t.get? (dir ++ [name]) = some e ∧ e ≠ .directory ∧
      t' = t.erase (dir ++ [name]) := by
  obtain ⟨⟨dir, last⟩, hplace, h⟩ := bind_eq_ok.1 h
  cases last with
  | fixed => cases h
  | name name slash =>
    dsimp only at h
    split at h
    next => cases h
    next => cases h
    next e hdirectory he =>
      split at h
      next => cases h
      next =>
        simp only [pure, Except.pure, Except.ok.injEq] at h
        exact ⟨dir, name, e, (place_eq_name_iff.1 hplace).1, he, hdirectory, h.symm⟩

namespace Names

variable (h : t.Names path dir name) (hslash : Path.endsInSlash path = false)
include h hslash

/-- A file can be removed under a path that names it. -/
theorem remove_eq (he : t.get? (dir ++ [name]) = some e) (hdirectory : e ≠ .directory) :
    t.remove path = .ok (t.erase (dir ++ [name])) := by
  have hplace := place_eq_name_iff.2 ⟨h, hslash.symm⟩
  cases e with
  | directory => exact absurd rfl hdirectory
  | file mode content => simp [remove, hplace, he, bind, Except.bind, pure, Except.pure]
  | link target => simp [remove, hplace, he, bind, Except.bind, pure, Except.pure]

/-- The mode of a file can be changed under a path that names it. -/
theorem setMode_eq {mode : Nat} {content : List UInt8} (hshort : name.size ≤ nameLimit)
    (he : t.get? (dir ++ [name]) = some (.file mode content)) (mode' : Nat) :
    t.setMode path mode' = .ok (t.put (dir ++ [name]) (.file mode' content)) := by
  have hresolve := h.resolve_eq hslash hshort he (fun _ => by simp)
  simp [setMode, hresolve, bind, Except.bind, pure, Except.pure]

end Names

/-! ## Creating directories -/

/-- **The second tree is the first with directories made along the given paths**: each
where one of the paths named nothing yet. -/
inductive GrowsAlong (paths : List RawText) (t : FileTree) : FileTree → Prop
  | refl : GrowsAlong paths t t
  | make {u : FileTree} {p name : RawText} {dir : Location} (h : GrowsAlong paths t u)
      (hp : p ∈ paths) (hnames : u.Names p dir name) (hfree : u.get? (dir ++ [name]) = none) :
      GrowsAlong paths t (u.put (dir ++ [name]) .directory)

namespace GrowsAlong

variable {t'' : FileTree} {paths : List RawText}

theorem trans (h : t.GrowsAlong paths t') (h' : t'.GrowsAlong paths t'') :
    t.GrowsAlong paths t'' := by
  induction h' with
  | refl => exact h
  | make _ hp hnames hfree ih => exact ih.make hp hnames hfree

theorem grows (h : t.GrowsAlong paths t') : t.Grows t' := by
  induction h with
  | refl => exact .refl
  | make _ _ _ hfree ih => exact ih.put_directory hfree

/-- **What is new is a directory that one of the paths names.** -/
theorem old_or_made (h : t.GrowsAlong paths t') (l : Location) :
    t'.get? l = t.get? l ∨ (t.get? l = none ∧ t'.get? l = some .directory ∧
      ∃ p ∈ paths, ∃ dir name, t'.Names p dir name ∧ l = dir ++ [name]) := by
  induction h with
  | refl => exact Or.inl rfl
  | @make u p name dir hu hp hnames hfree ih =>
    have hgrows : u.Grows (u.put (dir ++ [name]) .directory) := Grows.refl.put_directory hfree
    by_cases hl : l = dir ++ [name]
    · right
      subst hl
      exact ⟨hu.grows.get?_eq_none hfree, get?_put_self (by simp), p, hp, dir, name,
        hnames.grows hgrows, rfl⟩
    · rw [get?_put_of_ne hl]
      refine ih.imp_right ?_
      rintro ⟨hnone, hdirectory, q, hq, dir', name', hnames', heq⟩
      exact ⟨hnone, hdirectory, q, hq, dir', name', hnames'.grows hgrows, heq⟩

end GrowsAlong

variable {paths : List RawText}

theorem makeDirectory_growsAlong (hpath : path ∈ paths) (h : t.makeDirectory path = .ok t') :
    t.GrowsAlong paths t' := by
  obtain ⟨⟨u, l⟩, hcreate, h⟩ := bind_eq_ok.1 h
  obtain ⟨dir, name, hnames, -, rfl, hfree, rfl⟩ := create_eq_ok hcreate
  simp only [pure, Except.pure, Except.ok.injEq] at h
  rw [← h]
  exact GrowsAlong.refl.make hpath hnames hfree

theorem makeDirectories_growsAlong (t : FileTree) {ps : List RawText} (hps : ps ⊆ paths) :
    t.GrowsAlong paths (t.makeDirectories ps).1 := by
  induction ps generalizing t with
  | nil => exact .refl
  | cons p rest ih =>
    obtain ⟨hp, hrest⟩ := List.cons_subset.1 hps
    rw [makeDirectories]
    split
    next u hmake => exact (makeDirectory_growsAlong hp hmake).trans (ih u hrest)
    next =>
      split
      · exact ih t hrest
      · exact .refl

/-- Directories that are missing are among those asked for. -/
theorem missing_growsAlong (t : FileTree) {ps : List RawText} (hps : ps ⊆ paths) :
    t.GrowsAlong paths (t.missing ps).1 ∧ ∀ qs, (t.missing ps).2 = .ok qs → qs ⊆ ps := by
  have hnil : ∀ ps qs, (.ok [] : Except IoError (List RawText)) = .ok qs → qs ⊆ ps := by
    rintro ps qs hqs
    obtain rfl := Except.ok.inj hqs
    exact List.nil_subset ps
  induction ps generalizing t with
  | nil => exact ⟨.refl, hnil []⟩
  | cons p rest ih =>
    obtain ⟨hp, hrest⟩ := List.cons_subset.1 hps
    rw [missing]
    split
    next u hmake => exact ⟨makeDirectory_growsAlong hp hmake, hnil _⟩
    next =>
      split
      next =>
        obtain ⟨hgrows, hsubset⟩ := ih t hrest
        split
        next u ps' hmissing =>
          rw [hmissing] at hgrows hsubset
          refine ⟨hgrows, fun qs hqs => ?_⟩
          obtain rfl := Except.ok.inj hqs
          exact List.cons_subset_cons p (hsubset ps' rfl)
        next u e hmissing =>
          rw [hmissing] at hgrows
          exact ⟨hgrows, fun qs hqs => by cases hqs⟩
      next =>
        split
        · exact ⟨.refl, hnil _⟩
        · exact ⟨.refl, fun qs hqs => by cases hqs⟩

/-- **Creating a directory with all that lead to it makes directories along its
ancestors**, and does nothing else, whatever comes of it. -/
theorem createDirectories_growsAlong (t : FileTree) (path : RawText) :
    t.GrowsAlong (Path.ancestors path) (t.createDirectories path).1 := by
  obtain ⟨hgrows, hsubset⟩ := missing_growsAlong t (List.Subset.refl (Path.ancestors path))
  rw [createDirectories]
  split
  next u ps heq =>
    rw [heq] at hgrows hsubset
    exact hgrows.trans (makeDirectories_growsAlong u fun p hp =>
      hsubset ps rfl (List.mem_reverse.1 hp))
  next u e heq => rwa [heq] at hgrows

theorem createDirectories_grows (t : FileTree) (path : RawText) :
    t.Grows (t.createDirectories path).1 := (createDirectories_growsAlong t path).grows

end FileTree

end DocStore
