import DocStore.Proofs.Files.Parents
/-!
# Paths made of names

A path made of ordinary names is walked along those names. Without its last name it is
the path made of the names in front, so its directory and its ancestors are made of
names too.
-/

namespace DocStore

namespace Path

variable {names : List RawText} {name : RawText}

/-- **An ordinary name**: one that a file or a directory can have. -/
structure IsOrdinary (name : RawText) : Prop extends FileTree.IsName name where
  ne_empty : name.bytes ≠ []
  noSlash : slash ∉ name.bytes
  noNul : 0 ∉ name.bytes

instance (name : RawText) : Decidable (IsOrdinary name) :=
  decidable_of_iff ((name ≠ dot ∧ name ≠ dots ∧ name.size ≤ nameLimit) ∧
      name.bytes ≠ [] ∧ slash ∉ name.bytes ∧ 0 ∉ name.bytes)
    ⟨fun ⟨⟨hdot, hdots, hshort⟩, hne, hslash, hnul⟩ => ⟨⟨hdot, hdots, hshort⟩, hne, hslash, hnul⟩,
      fun h => ⟨⟨h.ne_dot, h.ne_dots, h.short⟩, h.ne_empty, h.noSlash, h.noNul⟩⟩

/-- The path made of names, one in the other. -/
def relative (names : List RawText) : RawText :=
  ⟨[slash].intercalate (names.map RawText.bytes)⟩

theorem IsOrdinary.front (h : ∀ c ∈ names ++ [name], IsOrdinary c) : ∀ c ∈ names, IsOrdinary c :=
  fun c hc => h c (List.mem_append_left [name] hc)

theorem IsOrdinary.last (h : ∀ c ∈ names ++ [name], IsOrdinary c) : IsOrdinary name :=
  h name (List.mem_append_right names (List.mem_singleton.2 rfl))

theorem IsOrdinary.isIdle (h : IsOrdinary name) : isIdle name.bytes = false :=
  isIdle_bytes h.ne_empty h.ne_dot

/-! ## The bytes of the path -/

theorem relative_singleton (name : RawText) : relative [name] = name :=
  RawText.ext (by simp [relative])

theorem relative_concat (hne : names ≠ []) (name : RawText) :
    relative (names ++ [name]) = relative names ++ ⟨[slash]⟩ ++ name := by
  refine RawText.ext ?_
  simp only [relative, List.map_append, List.map_singleton]
  rw [intercalate_append (by simpa using hne) (by simp), List.intercalate_singleton]
  simp

/-- The bytes of the path are slashes and those of the names. -/
theorem mem_relative {c : UInt8} (h : c ∈ (relative names).bytes) :
    c = slash ∨ ∃ name ∈ names, c ∈ name.bytes := by
  induction names using List.reverseRecOn with
  | nil => simp [relative] at h
  | append_singleton init name ih =>
    by_cases hinit : init = []
    · subst hinit
      have hname : c ∈ name.bytes := by rwa [List.nil_append, relative_singleton] at h
      exact Or.inr ⟨name, by simp, hname⟩
    · rw [relative_concat hinit] at h
      simp only [RawText.bytes_append, List.mem_append] at h
      rcases h with (h | h) | h
      · rcases ih h with hslash | ⟨n, hn, hc⟩
        · exact Or.inl hslash
        · exact Or.inr ⟨n, List.mem_append_left _ hn, hc⟩
      · exact Or.inl (by simpa using h)
      · exact Or.inr ⟨name, by simp, h⟩

theorem noNul_relative (h : ∀ c ∈ names, 0 ∉ c.bytes) : 0 ∉ (relative names).bytes := by
  intro hnul
  rcases mem_relative hnul with hslash | ⟨c, hc, hmem⟩
  · exact absurd hslash (by decide)
  · exact h c hc hmem

theorem length_relative_le (names : List RawText) (name : RawText) :
    (relative names).size ≤ (relative (names ++ [name])).size := by
  by_cases hnil : names = []
  · subst hnil
    exact Nat.zero_le _
  · rw [relative_concat hnil, RawText.size_append, RawText.size_append]
    omega

/-! ## The pieces of the path -/

section

variable (hnames : ∀ c ∈ names, IsOrdinary c)
include hnames

theorem split_relative (hne : names ≠ []) :
    split (relative names).bytes = names.map RawText.bytes := by
  refine split_intercalate (by simpa using hne) fun p hp => ?_
  obtain ⟨c, hc, rfl⟩ := List.mem_map.1 hp
  exact (hnames c hc).noSlash

theorem pieces_relative : pieces (relative names) = names := by
  by_cases hnil : names = []
  · subst hnil
    decide
  · have hkept : (names.map RawText.bytes).filter (· ≠ []) = names.map RawText.bytes := by
      refine List.filter_eq_self.2 fun p hp => ?_
      obtain ⟨c, hc, rfl⟩ := List.mem_map.1 hp
      simpa using (hnames c hc).ne_empty
    unfold pieces
    rw [split_relative hnames hnil, hkept, List.map_map]
    simp [Function.comp_def]

theorem isAbsolute_relative : isAbsolute (relative names) = false := by
  by_cases hnil : names = []
  · subst hnil
    decide
  · obtain ⟨first, rest, rfl⟩ := List.exists_cons_of_ne_nil hnil
    have hfirst : first.bytes ≠ [] := (hnames first (by simp)).ne_empty
    rw [← Bool.not_eq_true, isAbsolute_of_split (split_relative hnames hnil)]
    exact fun habsolute => hfirst habsolute.1

theorem endsInSlash_relative : endsInSlash (relative names) = false := by
  rcases List.eq_nil_or_concat' names with rfl | ⟨init, name, rfl⟩
  · decide
  · have hname := IsOrdinary.last hnames
    by_cases hnil : init = []
    · subst hnil
      rw [List.nil_append, relative_singleton]
      exact endsInSlash_append hname.ne_empty hname.noSlash ⟨[]⟩
    · rw [relative_concat hnil]
      exact endsInSlash_append hname.ne_empty hname.noSlash _

theorem joined_relative : joined (names.map RawText.bytes) = relative names := by
  have hroot : names.map RawText.bytes ≠ [[]] := by
    intro heq
    have hmem : [] ∈ names.map RawText.bytes := by rw [heq]; exact List.mem_singleton.2 rfl
    obtain ⟨c, hc, hempty⟩ := List.mem_map.1 hmem
    exact (hnames c hc).ne_empty (by simpa using hempty)
  unfold joined
  rw [if_neg hroot, relative]

theorem trimIdle_names : trimIdle (names.map RawText.bytes) = names.map RawText.bytes := by
  refine List.rdropWhile_eq_self_iff.2 fun hne => ?_
  obtain ⟨c, hc, hlast⟩ := List.mem_map.1 (List.getLast_mem hne)
  rw [← hlast, (hnames c hc).isIdle]
  exact Bool.false_ne_true

end

section

variable (hnames : ∀ c ∈ names ++ [name], IsOrdinary c)
include hnames

/-- **The directory of the path** is made of the names in front of the last one. -/
theorem directory_relative :
    directory (relative (names ++ [name])) = if names = [] then dot else relative names := by
  have hname := IsOrdinary.last hnames
  have hsplit := split_relative hnames (by simp)
  cases names with
  | nil =>
    rw [if_pos rfl]
    exact directory_of_name hsplit (hname.ne_empty)
  | cons first mid =>
    have hfront := IsOrdinary.front hnames
    have hpieces : split (relative (first :: mid ++ [name])).bytes =
        first.bytes :: (mid.map RawText.bytes ++ [name.bytes]) := by
      rw [hsplit]
      simp
    rw [if_neg (List.cons_ne_nil first mid), directory_of_split hpieces hname.isIdle,
      trimIdle_names fun c hc => hfront c (List.mem_cons_of_mem first hc), ← List.map_cons]
    exact joined_relative hfront

/-- **The ancestors of the path** are the path and those of the path without its last
name. -/
theorem ancestors_relative :
    ancestors (relative (names ++ [name])) =
      relative (names ++ [name]) :: ancestors (relative names) := by
  have hname := IsOrdinary.last hnames
  have hsplit := split_relative hnames (by simp)
  have hjoined := joined_relative hnames
  unfold ancestors
  rw [hsplit]
  cases names with
  | nil =>
    have hne : name.bytes ≠ [] := hname.ne_empty
    rw [← hjoined]
    show ancestorsFrom name.bytes [] = _
    rw [ancestorsFrom, if_neg hne]
    rfl
  | cons first mid =>
    have hfront := IsOrdinary.front hnames
    rw [split_relative hfront (List.cons_ne_nil first mid), ← hjoined]
    simp only [List.cons_append, List.map_cons, List.map_append, List.map_nil, List.reverse_append,
      List.reverse_cons, List.reverse_nil, List.nil_append]
    rw [ancestorsFrom, hname.isIdle, if_neg Bool.false_ne_true, List.reverse_cons,
      List.reverse_reverse]

end

end Path

namespace FileTree

open DocStore.Path

variable {t : FileTree} {names : List RawText} {name : RawText}

/-- The path starts at the home of the tree. -/
theorem start_relative (hnames : ∀ c ∈ names, IsOrdinary c) :
    t.start (relative names) = t.home := by
  unfold start
  rw [isAbsolute_relative hnames, if_neg Bool.false_ne_true]

theorem checkPath_relative (hne : names ≠ []) (hnames : ∀ c ∈ names, IsOrdinary c)
    (hshort : (relative names).size ≤ pathLimit) : checkPath (relative names) = .ok () := by
  refine checkPath_eq_ok_iff.2
    ⟨noNul_relative fun c hc => (hnames c hc).noNul, fun hempty => ?_, hshort⟩
  have hpieces := pieces_relative hnames
  rw [pieces, hempty] at hpieces
  exact hne (hpieces.symm.trans (by decide))

end FileTree

end DocStore
