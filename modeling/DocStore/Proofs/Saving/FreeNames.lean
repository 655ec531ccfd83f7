import DocStore.Proofs.Files.Parents
import DocStore.Proofs.Saving.Temporary
/-!
# Free names for temporary files

The names that are tried for a temporary file are all of one size: twelve bytes more than
what is shown of the target's name. So where one of them can be used each of them can,
unless it is taken, and a temporary file can be created if one of those that are tried is
free (`exists_createTemp_iff`).
-/

namespace DocStore

namespace Replacement

variable {r : Replacement} {t : FileTree} {dir : Location} {name : RawText} {k : Nat}

theorem utf8ByteSize_suffix (k : Nat) : (suffix k).utf8ByteSize = suffixLength := by
  have hascii : ∀ c ∈ (suffix k).toList, c.toNat < 0x80 := by
    have hall : suffixChars.all (fun c => decide (c.toNat < 0x80)) = true := by decide
    intro c hc
    exact of_decide_eq_true (List.all_eq_true.1 hall c (mem_suffixChars hc))
  rw [← String.ofList_toList (s := suffix k), Text.utf8ByteSize_of_ascii hascii, suffix,
    String.toList_ofList, List.length_map, List.length_range]

/-- **A temporary name has twelve bytes more than the text it is made from.** -/
theorem size_tempName (r : Replacement) (k : Nat) :
    (r.tempName k).size = r.baseName.utf8ByteSize + 12 := by
  have hdot : ".".utf8ByteSize = 1 := by decide
  have htmp : ".tmp".utf8ByteSize = 4 := by decide
  have hsuffix : (suffix k).utf8ByteSize = 6 := utf8ByteSize_suffix k
  unfold tempName
  simp only [RawText.size_ofText, String.utf8ByteSize_append]
  omega

theorem tempName_ne_of_short {other : RawText} (h : other.size < 12) (k : Nat) :
    r.tempName k ≠ other := by
  rintro rfl
  rw [size_tempName] at h
  omega

/-- The paths that are tried are a text that holds no less than what the target's name is
shown as, and a suffix with its ending. -/
theorem exists_tempPath_eq (r : Replacement) :
    ∃ front : RawText, ∀ k, r.tempPath k = front ++ .ofText (suffix k) ++ .ofText ".tmp" := by
  obtain ⟨front, -, hjoin⟩ := Path.exists_join_eq r.directory
  refine ⟨front ++ .ofText ("." ++ r.baseName ++ "."), fun k => RawText.ext ?_⟩
  rw [tempPath_eq, hjoin]
  simp [tempName, RawText.ofText]

/-- The paths from the root that are tried differ in the suffix only. -/
theorem exists_fromRoot_tempPath (r : Replacement) (t : FileTree) :
    ∃ front : RawText, ∀ k,
      t.fromRoot (r.tempPath k) = front ++ .ofText (suffix k) ++ .ofText ".tmp" := by
  obtain ⟨front, hpath⟩ := r.exists_tempPath_eq
  obtain ⟨root, -, hroot⟩ := t.exists_fromRoot_eq
  have habsolute : ∀ k, Path.isAbsolute (r.tempPath k) = Path.isAbsolute r.directory :=
    fun k => Path.isAbsolute_join (Path.directory_ne_empty r.path)
  by_cases h : Path.isAbsolute r.directory = true
  · refine ⟨front, fun k => ?_⟩
    rw [FileTree.fromRoot, habsolute, if_pos h, hpath]
  · refine ⟨root ++ front, fun k => ?_⟩
    rw [hroot _ (by rw [habsolute]; exact Bool.not_eq_true _ ▸ h), hpath]
    simp only [RawText.append_assoc]

/-- **One of the paths from the root is taken by the system if each of them is.** -/
theorem checkPath_fromRoot_tempPath (j k : Nat)
    (h : FileTree.checkPath (t.fromRoot (r.tempPath j)) = .ok ()) :
    FileTree.checkPath (t.fromRoot (r.tempPath k)) = .ok () := by
  obtain ⟨front, hfront⟩ := r.exists_fromRoot_tempPath t
  rw [hfront, FileTree.checkPath_eq_ok_iff] at h ⊢
  obtain ⟨hnul, -, hshort⟩ := h
  simp only [RawText.size_append, RawText.size_ofText, utf8ByteSize_suffix] at hshort ⊢
  simp only [RawText.bytes_append, List.mem_append, not_or] at hnul ⊢
  have hsuffix : 0 ∉ (RawText.ofText (suffix k)).bytes :=
    fun hmem => absurd (mem_bytes_suffix hmem) (by decide)
  have hend : (RawText.ofText ".tmp").bytes ≠ [] := by decide
  exact ⟨⟨⟨hnul.1.1, hsuffix⟩, hnul.2⟩, List.append_ne_nil_of_right_ne_nil _ hend, hshort⟩

section

variable (hnames : t.Names r.path dir name) (hslash : Path.endsInSlash r.path = false)
include hnames hslash

/-- **A temporary file lies in the directory of the target**, if the system takes its
path. -/
theorem names_tempPath (k : Nat) (h : FileTree.checkPath (t.fromRoot (r.tempPath k)) = .ok ()) :
    t.Names (r.tempPath k) dir (r.tempName k) := by
  exact FileTree.names_join (hnames.resolve_directory hslash).1 tempName_ne_empty
    not_mem_tempName (tempName_ne_of_short (by decide) k) (tempName_ne_of_short (by decide) k)
    (FileTree.checkPath_of_fromRoot tempPath_ne_empty h)

variable (hroom : name.text.utf8ByteSize + 12 ≤ nameLimit)
  (haccepted : FileTree.checkPath (t.fromRoot (r.tempPath k)) = .ok ())
include hroom haccepted

/-- **Where there is room, a temporary file can be created under a name that is free.** -/
theorem createNth_of_free (hfree : t.get? (dir ++ [r.tempName k]) = none) :
    r.createNth t k = .ok (t.put (dir ++ [r.tempName k]) (.file privateMode []),
      ⟨r.tempPath k, dir ++ [r.tempName k]⟩) := by
  refine Temporary.createNth_eq haccepted (names_tempPath hnames hslash k haccepted) ?_ hfree
  rwa [size_tempName, baseName_eq hnames]

/-- It cannot be created under one that is taken. -/
theorem createNth_of_taken (htaken : t.get? (dir ++ [r.tempName k]) ≠ none) :
    r.createNth t k = .error .alreadyThere := by
  obtain ⟨e, he⟩ := Option.ne_none_iff_exists'.1 htaken
  refine Temporary.createNth_eq_error haccepted (names_tempPath hnames hslash k haccepted) ?_ he
  rwa [size_tempName, baseName_eq hnames]

omit hroom haccepted

/-- **When a temporary file can be created.** There has to be room for twelve more bytes
in the name as it is shown, the system has to take the path from the root, and one of the
names that are tried has to be free. -/
theorem exists_createTemp_iff {tries : List Nat} :
    (∃ created, r.createTemp t tries = .ok created) ↔
      name.text.utf8ByteSize + 12 ≤ nameLimit ∧
      FileTree.checkPath (t.fromRoot (r.tempPath 0)) = .ok () ∧
      ∃ k ∈ tries, t.get? (dir ++ [r.tempName k]) = none := by
  constructor
  · rintro ⟨⟨t', temp⟩, h⟩
    obtain ⟨k, hk, hcreated⟩ := Temporary.exists_createNth_of_createTemp h
    obtain ⟨haccepted, dir', hnames', hshort, hfree, -⟩ := Temporary.createNth_eq_ok hcreated
    obtain ⟨rfl, -⟩ := hnames'.unique (names_tempPath hnames hslash k haccepted)
    rw [size_tempName, baseName_eq hnames] at hshort
    exact ⟨hshort, checkPath_fromRoot_tempPath k 0 haccepted, k, hk, hfree⟩
  · rintro ⟨hroom, haccepted, k, hk, hfree⟩
    have haccepted : ∀ k, FileTree.checkPath (t.fromRoot (r.tempPath k)) = .ok () :=
      fun k => checkPath_fromRoot_tempPath 0 k haccepted
    refine Temporary.exists_createTemp (fun j _ => ?_)
      ⟨k, hk, _, createNth_of_free hnames hslash hroom (haccepted k) hfree⟩
    by_cases htaken : t.get? (dir ++ [r.tempName j]) = none
    · exact Or.inl ⟨_, createNth_of_free hnames hslash hroom (haccepted j) htaken⟩
    · exact Or.inr (createNth_of_taken hnames hslash hroom (haccepted j) htaken)

end

end Replacement

end DocStore
