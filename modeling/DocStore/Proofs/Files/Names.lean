import DocStore.Files.Path
import Mathlib.Data.List.Basic
/-!
# Names in paths

A name put behind a directory is the last step of the path that results, and
the steps in front of it are those of the directory.
-/

namespace DocStore

namespace Path

variable {dir name path : RawText} {cs ds piece : List UInt8}

theorem split_ne_nil (cs : List UInt8) : split cs ≠ [] := by
  cases cs with
  | nil => simp [split]
  | cons c rest =>
    rw [split]
    split
    · simp
    · split <;> simp

/-- **Cutting at a slash** cuts both sides. -/
theorem split_append_slash (cs ds : List UInt8) :
    split (cs ++ slash :: ds) = split cs ++ split ds := by
  induction cs with
  | nil => simp [split]
  | cons c rest ih =>
    rw [List.cons_append, split, split]
    by_cases hslash : c = slash
    · rw [if_pos hslash, if_pos hslash, ih, List.cons_append]
    · rw [if_neg hslash, if_neg hslash, ih]
      obtain ⟨first, others, hrest⟩ := List.exists_cons_of_ne_nil (split_ne_nil rest)
      simp [hrest]

theorem split_of_not_mem (h : slash ∉ cs) : split cs = [cs] := by
  induction cs with
  | nil => rfl
  | cons c rest ih =>
    have hc : c ≠ slash := fun heq => h (by simp [heq])
    rw [split, if_neg hc, ih (fun hmem => h (List.mem_cons_of_mem c hmem))]

/-- No piece holds a slash. -/
theorem not_mem_of_mem_split (h : piece ∈ split cs) : slash ∉ piece := by
  induction cs generalizing piece with
  | nil =>
    rw [split, List.mem_singleton] at h
    simp [h]
  | cons c rest ih =>
    rw [split] at h
    by_cases hslash : c = slash
    · rw [if_pos hslash] at h
      rcases List.mem_cons.1 h with rfl | h
      · simp
      · exact ih h
    · rw [if_neg hslash] at h
      obtain ⟨first, others, hrest⟩ := List.exists_cons_of_ne_nil (split_ne_nil rest)
      rw [hrest] at h ih
      rcases List.mem_cons.1 h with rfl | h
      · have hfirst := ih (List.mem_cons_self ..)
        simp [hfirst, Ne.symm hslash]
      · exact ih (List.mem_cons_of_mem first h)

theorem not_mem_of_mem_pieces (h : name ∈ pieces path) : slash ∉ name.bytes := by
  obtain ⟨piece, hpiece, rfl⟩ := List.mem_map.1 h
  exact not_mem_of_mem_split (List.mem_filter.1 hpiece).1

theorem pieces_of_bytes {p q : RawText} (cs : List UInt8) (h : p.bytes = q.bytes ++ slash :: cs) :
    pieces p = pieces q ++ pieces (RawText.mk cs) := by
  simp only [pieces, h, split_append_slash, List.filter_append, List.map_append]

theorem pieces_of_name (hne : name.bytes ≠ []) (hslash : slash ∉ name.bytes) :
    pieces name = [name] := by
  simp [pieces, split_of_not_mem hslash, hne]

/-- **A name in a directory is the last step**, behind those of the
directory. -/
theorem pieces_join (hne : name.bytes ≠ []) (hslash : slash ∉ name.bytes) :
    pieces (join dir name) = pieces dir ++ [name] := by
  rw [join]
  split
  next hends =>
    rw [endsInSlash, beq_iff_eq, List.getLast?_eq_some_iff] at hends
    obtain ⟨cs, hcs⟩ := hends
    have hdir : pieces dir = pieces (RawText.mk cs) := by
      have hempty : pieces dir = pieces (RawText.mk cs) ++ pieces (RawText.mk []) :=
        pieces_of_bytes [] hcs
      simpa [pieces, split] using hempty
    rw [hdir, ← pieces_of_name hne hslash]
    refine pieces_of_bytes name.bytes ?_
    simp [hcs]
  next =>
    refine (pieces_of_bytes (q := dir) name.bytes (by simp)).trans ?_
    rw [pieces_of_name hne hslash]

/-- A path in a directory has the directory in front of it, and a slash if it needs one. -/
theorem exists_join_eq (dir : RawText) :
    ∃ front, (front = dir ∨ front = dir ++ ⟨[slash]⟩) ∧ ∀ rest, join dir rest = front ++ rest := by
  by_cases hends : endsInSlash dir = true
  · exact ⟨dir, Or.inl rfl, fun rest => by rw [join, if_pos hends]⟩
  · exact ⟨dir ++ ⟨[slash]⟩, Or.inr rfl, fun rest => by rw [join, if_neg hends]⟩

/-- A text that ends in a name does not end in a slash. -/
theorem endsInSlash_append (hne : name.bytes ≠ []) (hslash : slash ∉ name.bytes) (front : RawText) :
    endsInSlash (front ++ name) = false := by
  unfold endsInSlash
  rw [RawText.bytes_append, List.getLast?_append_of_ne_nil _ hne,
    beq_eq_false_iff_ne]
  exact fun hsome => hslash (List.mem_of_getLast? hsome)

/-- A path that ends in a name does not end in a slash. -/
theorem endsInSlash_join (hne : name.bytes ≠ []) (hslash : slash ∉ name.bytes) :
    endsInSlash (join dir name) = false := by
  obtain ⟨front, -, hjoin⟩ := exists_join_eq dir
  rw [hjoin]
  exact endsInSlash_append hne hslash front

theorem isAbsolute_append (hfront : dir.bytes ≠ []) (rest : RawText) :
    isAbsolute (dir ++ rest) = isAbsolute dir := by
  unfold isAbsolute
  rw [RawText.bytes_append, List.head?_append_of_ne_nil _ hfront]

/-- A name in a directory starts where the directory does. -/
theorem isAbsolute_join (hdir : dir.bytes ≠ []) : isAbsolute (join dir name) = isAbsolute dir := by
  obtain ⟨front, hfront, hjoin⟩ := exists_join_eq dir
  rw [hjoin]
  rcases hfront with rfl | rfl
  · exact isAbsolute_append hdir name
  · rw [RawText.append_assoc, isAbsolute_append hdir]

/-- **The last step of a path, where it is a name, is its file name.** -/
theorem fileName?_parts (h : (pieces path).getLast? = some name) (hdot : name ≠ dot)
    (hdots : name ≠ dots) : (parts path).fileName? = some name := by
  obtain ⟨front, hpieces⟩ := List.getLast?_eq_some_iff.1 h
  have hlast : (parts path).names.getLast? = some name := by
    rw [parts, hpieces]
    cases front with
    | nil => simp [hdot]
    | cons first front => simp [hdot, List.filter_append, ← List.append_assoc]
  simp [Parts.fileName?, hlast, hdot, hdots]

/-- A file name is one of the steps. -/
theorem mem_pieces_of_fileName? (h : (parts path).fileName? = some name) : name ∈ pieces path := by
  have hname : name ∈ (parts path).names := by
    rw [Parts.fileName?] at h
    split at h
    next last hlast =>
      split at h
      next => cases h
      next => exact List.mem_of_getLast? (by rw [hlast, h])
    next => cases h
  rw [parts] at hname
  cases hpieces : pieces path with
  | nil =>
    rw [hpieces] at hname
    exact absurd hname List.not_mem_nil
  | cons first rest =>
    rw [hpieces] at hname
    rcases List.mem_append.1 hname with hname | hname
    · split at hname
      next => exact absurd hname List.not_mem_nil
      next => exact List.mem_cons.2 (Or.inl (List.mem_singleton.1 hname))
    · exact List.mem_cons_of_mem first (List.mem_filter.1 hname).1

end Path

end DocStore
