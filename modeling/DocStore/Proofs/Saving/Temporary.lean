import DocStore.Saving.Replace
import DocStore.Proofs.Files.Names
import DocStore.Proofs.Files.Operations
import DocStore.Proofs.Text.Raw
import Mathlib.Data.List.GetD
/-!
# Temporary files

A temporary file lies where nothing was, under a name of its own, and never
where the target lies: its name holds that of the target and is longer
(`IsAt.neverNamed`). The path it was created under leads back to it in every
tree that keeps the directories and links on the way.
-/

namespace DocStore

namespace Replacement

variable {r : Replacement} {t t' b : FileTree} {temp : Temporary} {k : Nat} {c : UInt8}

theorem tempPath_eq : r.tempPath k = Path.join r.directory (r.tempName k) := rfl

theorem mem_suffixChars {c : Char} (h : c ∈ (suffix k).toList) : c ∈ suffixChars := by
  rw [suffix, String.toList_ofList, List.mem_map] at h
  obtain ⟨i, -, rfl⟩ := h
  rw [List.getD_eq_getElem _ _ (Nat.mod_lt _ (by decide))]
  exact List.getElem_mem _

/-- A byte of a suffix is one of a character that makes up suffixes. -/
theorem mem_bytes_suffix (h : c ∈ Text.bytes (suffix k)) :
    c ∈ suffixChars.flatMap String.utf8EncodeChar := by
  rw [Text.bytes_eq_flatMap, List.mem_flatMap] at h
  obtain ⟨d, hd, hc⟩ := h
  exact List.mem_flatMap.2 ⟨d, mem_suffixChars hd, hc⟩

theorem baseName_of_last {name : RawText} (hlast : (Path.pieces r.path).getLast? = some name)
    (hdot : name ≠ Path.dot) (hdots : name ≠ Path.dots) : r.baseName = name.text := by
  rw [baseName, Path.fileName?_parts hlast hdot hdots, Option.elim_some]

/-- A temporary file is named after the target. -/
theorem baseName_eq {dir : Location} {name : RawText} (h : t.Names r.path dir name) :
    r.baseName = name.text := baseName_of_last h.last h.ne_dot h.ne_dots

theorem not_mem_baseName (r : Replacement) : Path.slash ∉ Text.bytes r.baseName := by
  rw [baseName]
  cases hname : (Path.parts r.path).fileName? with
  | none => decide
  | some name =>
    exact RawText.not_mem_text (by decide)
      (Path.not_mem_of_mem_pieces (Path.mem_pieces_of_fileName? hname))

theorem bytes_tempName (r : Replacement) (k : Nat) :
    (r.tempName k).bytes =
      Text.bytes "." ++ Text.bytes r.baseName ++ Text.bytes "." ++ Text.bytes (suffix k) ++
        Text.bytes ".tmp" := by
  simp only [tempName, RawText.ofText, Text.bytes_append]

/-- A byte that is not in the target's name, and in none of what is put around it, is not
in the name of a temporary file. -/
theorem not_mem_tempName_of (hbase : c ∉ Text.bytes r.baseName)
    (hdot : c ∉ Text.bytes ".") (hchars : c ∉ suffixChars.flatMap String.utf8EncodeChar)
    (hend : c ∉ Text.bytes ".tmp") : c ∉ (r.tempName k).bytes := by
  simp only [bytes_tempName, List.mem_append, not_or]
  exact ⟨⟨⟨⟨hdot, hbase⟩, hdot⟩, fun h => hchars (mem_bytes_suffix h)⟩, hend⟩

theorem not_mem_tempName : Path.slash ∉ (r.tempName k).bytes :=
  not_mem_tempName_of (not_mem_baseName r) (by decide) (by decide) (by decide)

theorem tempName_ne_empty : (r.tempName k).bytes ≠ [] := by
  rw [bytes_tempName]
  exact List.append_ne_nil_of_right_ne_nil _ (by decide)

/-- **The name of a temporary file is not the one it is made from.** -/
theorem tempName_ne {dir : Location} {name : RawText} (h : t.Names r.path dir name) :
    r.tempName k ≠ name := by
  intro heq
  -- what is shown of the name is made of what is shown of the target's by adding to it
  have hlength := congrArg (fun name => name.text.length) heq
  rw [tempName, baseName_eq h] at hlength
  simp only [RawText.text_ofText, String.length_append] at hlength
  have hdot : ".".length = 1 := rfl
  omega

/-- The steps of a temporary file's path are those of the directory, and its
name. -/
theorem getLast?_pieces_tempPath : (Path.pieces (r.tempPath k)).getLast? = some (r.tempName k) := by
  rw [tempPath_eq, Path.pieces_join tempName_ne_empty not_mem_tempName, List.getLast?_concat]

theorem tempPath_ne_empty : (r.tempPath k).bytes ≠ [] := by
  intro hempty
  have hlast := getLast?_pieces_tempPath (r := r) (k := k)
  rw [Path.pieces, hempty] at hlast
  cases hlast

theorem endsInSlash_tempPath : Path.endsInSlash (r.tempPath k) = false :=
  Path.endsInSlash_join tempName_ne_empty not_mem_tempName

end Replacement

namespace FileTree

/-- A place that no tree names by the given path. -/
def NeverNamed (path : RawText) (l : Location) : Prop :=
  ∀ (t : FileTree) (dir : Location) (name : RawText), t.Names path dir name → l ≠ dir ++ [name]

end FileTree

namespace Temporary

variable {temp : Temporary} {r : Replacement} {t t' : FileTree} {k : Nat}

/-- **The tree leads the path of a temporary file to the place of its file.** -/
def IsAt (temp : Temporary) (r : Replacement) (t : FileTree) : Prop :=
  ∃ k dir, temp = ⟨r.tempPath k, dir ++ [r.tempName k]⟩ ∧
    (r.tempName k).size ≤ nameLimit ∧ t.Names (r.tempPath k) dir (r.tempName k)

/-- **What the creation of the temporary file with the `k`-th suffix does**, where it
succeeds. -/
theorem createNth_eq_ok (h : r.createNth t k = .ok (t', temp)) :
    FileTree.checkPath (t.fromRoot (r.tempPath k)) = .ok () ∧
    ∃ dir, t.Names (r.tempPath k) dir (r.tempName k) ∧ (r.tempName k).size ≤ nameLimit ∧
      t.get? (dir ++ [r.tempName k]) = none ∧ temp = ⟨r.tempPath k, dir ++ [r.tempName k]⟩ ∧
      t' = t.put (dir ++ [r.tempName k]) (.file privateMode []) := by
  obtain ⟨⟨⟩, haccepted, h⟩ := FileTree.bind_eq_ok.1 h
  obtain ⟨⟨u, l⟩, hcreate, h⟩ := FileTree.bind_eq_ok.1 h
  obtain ⟨dir, name, hnames, hshort, hl, hfree, hput⟩ := FileTree.create_eq_ok hcreate
  simp only [pure, Except.pure, Except.ok.injEq, Prod.mk.injEq] at h
  obtain ⟨rfl, rfl⟩ := h
  have hname : r.tempName k = name :=
    Option.some.inj (Replacement.getLast?_pieces_tempPath.symm.trans hnames.last)
  subst hname hl
  exact ⟨haccepted, dir, hnames, hshort, hfree, rfl, hput⟩

/-- **A temporary file is created empty**, where nothing was, for its owner
only. -/
theorem isAt_of_createNth (h : r.createNth t k = .ok (t', temp)) :
    temp.IsAt r t ∧ t.get? temp.location = none ∧
      t' = t.put temp.location (.file privateMode []) := by
  obtain ⟨-, dir, hnames, hshort, hfree, rfl, hput⟩ := createNth_eq_ok h
  exact ⟨⟨k, dir, rfl, hshort, hnames⟩, hfree, hput⟩

/-- A temporary file can be created where its name is free. -/
theorem createNth_eq {dir : Location}
    (haccepted : FileTree.checkPath (t.fromRoot (r.tempPath k)) = .ok ())
    (hnames : t.Names (r.tempPath k) dir (r.tempName k))
    (hshort : (r.tempName k).size ≤ nameLimit)
    (hfree : t.get? (dir ++ [r.tempName k]) = none) :
    r.createNth t k = .ok (t.put (dir ++ [r.tempName k]) (.file privateMode []),
      ⟨r.tempPath k, dir ++ [r.tempName k]⟩) := by
  have hcreate := FileTree.create_eq hnames hshort hfree (.file privateMode [])
  simp [Replacement.createNth, haccepted, hcreate, bind, Except.bind, pure, Except.pure]

/-- It cannot be created where its name is taken. -/
theorem createNth_eq_error {dir : Location} {e : Entry}
    (haccepted : FileTree.checkPath (t.fromRoot (r.tempPath k)) = .ok ())
    (hnames : t.Names (r.tempPath k) dir (r.tempName k))
    (hshort : (r.tempName k).size ≤ nameLimit)
    (htaken : t.get? (dir ++ [r.tempName k]) = some e) :
    r.createNth t k = .error .alreadyThere := by
  have hcreate := FileTree.create_eq_error hnames hshort htaken (.file privateMode [])
  simp [Replacement.createNth, haccepted, hcreate, bind, Except.bind]

theorem createTemp_nil : r.createTemp t [] = .error .noFreeName := rfl

-- the attempt itself stays closed, or unfolding goes into the names
attribute [local irreducible] Replacement.createNth in
theorem createTemp_cons (k : Nat) (rest : List Nat) :
    r.createTemp t (k :: rest) =
      match r.createNth t k with
      | .ok created => .ok created
      | .error e =>
        if e.kind = .alreadyExists then r.createTemp t rest else .error e := rfl

/-- The temporary file has one of the names that were tried. -/
theorem exists_createNth_of_createTemp {tries : List Nat}
    (h : r.createTemp t tries = .ok (t', temp)) :
    ∃ k ∈ tries, r.createNth t k = .ok (t', temp) := by
  induction tries with
  | nil =>
    rw [createTemp_nil] at h
    cases h
  | cons k rest ih =>
    rw [createTemp_cons] at h
    split at h
    next created hcreated => exact ⟨k, List.mem_cons_self .., hcreated.trans h⟩
    next =>
      split at h
      · obtain ⟨j, hj, hcreated⟩ := ih h
        exact ⟨j, List.mem_cons_of_mem k hj, hcreated⟩
      · cases h

/-- **A name that is free is found behind those that are taken.** -/
theorem exists_createTemp {tries : List Nat}
    (htaken : ∀ k ∈ tries, (∃ created, r.createNth t k = .ok created) ∨
      r.createNth t k = .error .alreadyThere)
    (hfree : ∃ k ∈ tries, ∃ created, r.createNth t k = .ok created) :
    ∃ created, r.createTemp t tries = .ok created := by
  induction tries with
  | nil =>
    obtain ⟨k, hk, -⟩ := hfree
    cases hk
  | cons k rest ih =>
    have hkind : IoError.alreadyThere.kind = .alreadyExists := by decide
    rw [createTemp_cons]
    rcases htaken k (List.mem_cons_self ..) with ⟨created, hcreated⟩ | hk
    · rw [hcreated]
      exact ⟨created, rfl⟩
    · rw [hk]
      dsimp only
      rw [if_pos hkind]
      refine ih (fun j hj => htaken j (List.mem_cons_of_mem k hj)) ?_
      obtain ⟨j, hj, created, hcreated⟩ := hfree
      rcases List.mem_cons.1 hj with rfl | hj
      · rw [hk] at hcreated
        cases hcreated
      · exact ⟨j, hj, created, hcreated⟩

/-- In order, the first suffix comes first. -/
theorem exists_suffixesInOrder_eq (t : FileTree) : ∃ rest, t.suffixesInOrder = 0 :: rest := by
  have hpos : 0 < min (t.size + 1) suffixCount :=
    Nat.lt_min.2 ⟨Nat.succ_pos _, Nat.pow_pos (by decide)⟩
  obtain ⟨n, hn⟩ := Nat.exists_eq_succ_of_ne_zero (Nat.ne_of_gt hpos)
  exact ⟨_, by rw [FileTree.suffixesInOrder, hn, List.range_succ_eq_map]⟩

/-- The first name that is tried is good if it is free. -/
theorem createTemp_eq_of_createNth {created : FileTree × Temporary}
    (h : r.createNth t k = .ok created) (rest : List Nat) :
    r.createTemp t (k :: rest) = .ok created := by
  rw [createTemp_cons, h]

namespace IsAt

theorem ne_nil (h : temp.IsAt r t) : temp.location ≠ [] := by
  obtain ⟨k, dir, rfl, -, -⟩ := h
  simp

/-- **A temporary file is never where the target lies.** -/
theorem neverNamed (h : temp.IsAt r t) : FileTree.NeverNamed r.path temp.location := by
  obtain ⟨k, dir, rfl, -, -⟩ := h
  intro u dir' name hnames heq
  exact Replacement.tempName_ne hnames (List.append_inj_right' heq rfl |> List.singleton_inj.1)

/-- The path names no other entry. -/
theorem location_eq (h : temp.IsAt r t) {dir : Location} {name : RawText}
    (hnames : t.Names temp.path dir name) : dir ++ [name] = temp.location := by
  obtain ⟨k, dir', rfl, -, hnames'⟩ := h
  obtain ⟨rfl, rfl⟩ := hnames'.unique hnames
  rfl

/-- **A tree that keeps directories and links leads the path to the same
file**, unless the path leads through a link that became a file. -/
theorem of_keeps (h : temp.IsAt r t) (hkeeps : t.Keeps t') :
    temp.IsAt r t' ∨
    (t'.resolve temp.path = .error .notDirectory ∧ (∀ dir name, ¬ t'.Names temp.path dir name) ∧
      ∃ l ∈ t.linksThrough temp.path, ∃ mode content, t'.get? l = some (.file mode content)) := by
  obtain ⟨k, dir, rfl, hshort, hnames⟩ := h
  rcases hnames.of_keeps hkeeps with ⟨hnames, -⟩ | hlost
  · exact Or.inl ⟨k, dir, rfl, hshort, hnames⟩
  · exact Or.inr hlost

theorem grows (h : temp.IsAt r t) (hgrows : t.Grows t') : temp.IsAt r t' := by
  obtain ⟨k, dir, rfl, hshort, hnames⟩ := h
  exact ⟨k, dir, rfl, hshort, hnames.grows hgrows⟩

variable {mode : Nat} {content : List UInt8}

theorem put_file (h : temp.IsAt r t) {l : Location} (hdirectory : t.get? l ≠ some .directory)
    (hlink : ∀ target, t.get? l ≠ some (.link target)) :
    temp.IsAt r (t.put l (.file mode content)) := by
  obtain ⟨k, dir, rfl, hshort, hnames⟩ := h
  exact ⟨k, dir, rfl, hshort, hnames.put_file hdirectory hlink⟩

theorem resolve_eq (h : temp.IsAt r t) (he : t.get? temp.location = some (.file mode content)) :
    t.resolve temp.path = .ok (temp.location, .file mode content) := by
  obtain ⟨k, dir, rfl, hshort, hnames⟩ := h
  exact hnames.resolve_eq Replacement.endsInSlash_tempPath hshort he (fun _ => by simp)

theorem setMode_eq (h : temp.IsAt r t) (he : t.get? temp.location = some (.file mode content))
    (mode' : Nat) :
    t.setMode temp.path mode' = .ok (t.put temp.location (.file mode' content)) := by
  obtain ⟨k, dir, rfl, hshort, hnames⟩ := h
  exact hnames.setMode_eq Replacement.endsInSlash_tempPath hshort he mode'

theorem rename_eq (h : temp.IsAt r t) (he : t.get? temp.location = some (.file mode content))
    {new name : RawText} {dir : Location} (hnew : t.Names new dir name)
    (hslash : Path.endsInSlash new = false) (hshort : name.size ≤ nameLimit)
    (hdirectory : t.get? (dir ++ [name]) ≠ some .directory) :
    t.rename temp.path new =
      .ok ((t.erase temp.location).put (dir ++ [name]) (.file mode content)) := by
  obtain ⟨k, dir', rfl, -, hnames⟩ := h
  exact FileTree.rename_eq hnames hnew hslash hshort he hdirectory

theorem remove_eq (h : temp.IsAt r t) (he : t.get? temp.location = some (.file mode content)) :
    t.remove temp.path = .ok (t.erase temp.location) := by
  obtain ⟨k, dir, rfl, -, hnames⟩ := h
  exact hnames.remove_eq Replacement.endsInSlash_tempPath he (by simp)

end IsAt

end Temporary

end DocStore
