import DocStore.Proofs.Files.Plain
import DocStore.Proofs.Saving.Success
/-!
# Saving under a path made of names

In a tree without links, under a path made of names, the outcome of a save can be read off
the tree as it was: there has to be a place for the file, the path of the temporary file
from the root must not be too long, and one of the temporary names that are tried has to be
free (`save_succeeds_iff`). The temporary file is named after what is shown of the target's
name, so what counts is how long that is. The rest is needed too (`save_fails_despite_place`):
a path that is short enough from the home may be too long from the root.
-/

namespace DocStore

/-- **A place for a file** under a path made of names: no directory has the path, the name
as it is shown leaves room for that of a temporary file, and the directory that it lies in is
there or may be made. -/
structure FileTree.HasPlace (t : FileTree) (createDirs : Bool) (names : List RawText)
    (name : RawText) : Prop where
  target : t.get? (t.home ++ names ++ [name]) ≠ some .directory
  short : name.text.utf8ByteSize ≤ 243
  parent : t.get? (t.home ++ names) = some .directory ∨
    createDirs = true ∧ t.Along (fun e => e = none ∨ e = some .directory) t.home names

namespace Replacement

open DocStore.Path

variable {r : Replacement} {t : FileTree} {names : List RawText} {name : RawText}

/-- **The path is no longer than the one with the name as it is shown.** -/
theorem size_relative_le (hfits : (relative (names ++ [.ofText name.text])).size + 12 ≤ pathLimit) :
    (relative (names ++ [name])).size ≤ pathLimit := by
  have hname := name.size_le_text
  have hshown : (RawText.ofText name.text).size = name.text.utf8ByteSize := RawText.size_ofText _
  by_cases hnil : names = []
  · subst hnil
    rw [List.nil_append, relative_singleton] at hfits ⊢
    omega
  · rw [relative_concat hnil] at hfits ⊢
    simp only [RawText.size_append] at hfits ⊢
    omega

section

variable (hnames : ∀ c ∈ names ++ [name], IsOrdinary c)
  (hpath : r.path = relative (names ++ [name]))
include hnames hpath

theorem directory_of_names : r.directory = if names = [] then dot else relative names := by
  unfold directory
  rw [hpath, directory_relative hnames]

theorem baseName_of_names : r.baseName = name.text := by
  have hname := IsOrdinary.last hnames
  refine baseName_of_last ?_ hname.ne_dot hname.ne_dots
  rw [hpath, pieces_relative hnames, List.getLast?_concat]

theorem tempName_of_names (k : Nat) :
    r.tempName k = .ofText ("." ++ name.text ++ "." ++ suffix k ++ ".tmp") := by
  unfold tempName
  rw [baseName_of_names hnames hpath]

/-- **The path of a temporary file** has twelve bytes more than the target's as it is shown,
and two more where a dot stands for the directory. -/
theorem size_tempPath (k : Nat) :
    (r.tempPath k).size =
      (relative (names ++ [.ofText name.text])).size + if names = [] then 14 else 12 := by
  have hslash : (RawText.mk [slash]).size = 1 := rfl
  have hdot : dot.size = 1 := rfl
  have hshown : (RawText.ofText name.text).size = name.text.utf8ByteSize := RawText.size_ofText _
  have hsize : (r.tempName k).size = name.text.utf8ByteSize + 12 := by
    rw [size_tempName, baseName_of_names hnames hpath]
  rw [tempPath_eq, directory_of_names hnames hpath]
  by_cases hnil : names = []
  · subst hnil
    have hjoin : join dot (r.tempName k) = dot ++ ⟨[slash]⟩ ++ r.tempName k := by
      unfold join
      rw [if_neg (by decide)]
    rw [if_pos rfl, if_pos rfl, hjoin, List.nil_append, relative_singleton]
    simp only [RawText.size_append]
    omega
  · have hends := endsInSlash_relative (IsOrdinary.front hnames)
    have hjoin : join (relative names) (r.tempName k) =
        relative names ++ ⟨[slash]⟩ ++ r.tempName k := by
      unfold join
      rw [hends, if_neg Bool.false_ne_true]
    rw [if_neg hnil, if_neg hnil, hjoin, relative_concat hnil]
    simp only [RawText.size_append]
    omega

theorem isAbsolute_tempPath (k : Nat) : isAbsolute (r.tempPath k) = false := by
  have hdirectory : r.directory.bytes ≠ [] := directory_ne_empty r.path
  rw [tempPath_eq, isAbsolute_join hdirectory, directory_of_names hnames hpath]
  split
  · decide
  · exact isAbsolute_relative (IsOrdinary.front hnames)

theorem noNul_tempPath (k : Nat) : 0 ∉ (r.tempPath k).bytes := by
  have hdirectory : 0 ∉ r.directory.bytes := by
    rw [directory_of_names hnames hpath]
    split
    · decide
    · exact noNul_relative fun c hc => (IsOrdinary.front hnames c hc).noNul
  have htemp : 0 ∉ (r.tempName k).bytes := by
    refine not_mem_tempName_of ?_ (by decide) (by decide) (by decide)
    rw [baseName_of_names hnames hpath]
    exact RawText.not_mem_text (by decide) (IsOrdinary.last hnames).noNul
  obtain ⟨front, hfront, hjoin⟩ := exists_join_eq r.directory
  rw [tempPath_eq, hjoin, RawText.bytes_append, List.mem_append, not_or]
  refine ⟨?_, htemp⟩
  rcases hfront with rfl | rfl
  · exact hdirectory
  · rw [RawText.bytes_append, List.mem_append, not_or]
    exact ⟨hdirectory, by decide⟩

/-- A path made of names, the last one as it is shown, starts at the home. -/
theorem isAbsolute_shown : isAbsolute (relative (names ++ [.ofText name.text])) = false := by
  by_cases hnil : names = []
  · subst hnil
    have hhead : (Text.bytes name.text).head? ≠ some slash := fun h =>
      RawText.not_mem_text (by decide) (IsOrdinary.last hnames).noSlash (List.mem_of_head? h)
    rw [List.nil_append, relative_singleton]
    exact beq_eq_false_iff_ne.2 hhead
  · have hne : (relative names).bytes ≠ [] := by
      intro hempty
      have hpieces := pieces_relative (IsOrdinary.front hnames)
      rw [pieces, hempty] at hpieces
      exact hnil (hpieces.symm.trans (by decide))
    rw [relative_concat hnil, RawText.append_assoc, isAbsolute_append hne]
    exact isAbsolute_relative (IsOrdinary.front hnames)

/-- **The system takes the path of a temporary file from the root** if it is not too
long. -/
theorem checkPath_fromRoot_iff (hplain : t.Plain) (k : Nat) :
    FileTree.checkPath (t.fromRoot (r.tempPath k)) = .ok () ↔
      (t.fromRoot (relative (names ++ [.ofText name.text]))).size +
        (if names = [] then 14 else 12) ≤ pathLimit := by
  obtain ⟨front, hhome, hfront⟩ := t.exists_fromRoot_eq
  have hnul : 0 ∉ front.bytes := by
    have hrelative := noNul_relative hplain.noNul
    have hroot : 0 ∉ slash :: (relative t.home).bytes := by
      rw [List.mem_cons, not_or]
      exact ⟨by decide, hrelative⟩
    rcases hhome with hbytes | hbytes
    · rwa [hbytes]
    · rw [hbytes, List.mem_append, not_or]
      exact ⟨hroot, by decide⟩
  rw [hfront _ (isAbsolute_tempPath hnames hpath k), hfront _ (isAbsolute_shown hnames hpath),
    FileTree.checkPath_eq_ok_iff, RawText.bytes_append, List.mem_append, RawText.size_append,
    RawText.size_append, size_tempPath hnames hpath, Nat.add_assoc]
  refine ⟨fun h => h.2.2, fun h => ⟨not_or.2 ⟨hnul, noNul_tempPath hnames hpath k⟩, ?_, h⟩⟩
  exact List.append_ne_nil_of_right_ne_nil _ tempPath_ne_empty

/-! ## Reading the outcome off the tree -/

variable (hplain : t.Plain)
  (hfits : (relative (names ++ [.ofText name.text])).size + 12 ≤ pathLimit)
include hplain hfits

/-- **The directory that the target lies in** can be made if it is missing, and nothing but the
way to it is made. -/
theorem made_of_parent
    (hparent : t.get? (t.home ++ names) = some .directory ∨
      r.createDirs = true ∧ t.Along (fun e => e = none ∨ e = some .directory) t.home names) :
    (r.createDirs = true → (t.createDirectories r.directory).2 = .ok ()) ∧
      t.Made (r.prepared t) names := by
  have hshort := size_relative_le hfits
  by_cases hthere : t.get? (t.home ++ names) = some .directory
  · have hentry := (FileTree.names_relative_iff hplain.noLink hnames hshort).2
      ⟨rfl, rfl, hplain.along hthere⟩
    have hself := hentry.createDirectories_eq (endsInSlash_relative hnames)
    rw [← hpath] at hself
    have hprepared : r.prepared t = t := by
      unfold prepared directory
      rw [hself, ite_self]
    rw [hprepared]
    exact ⟨fun _ => congrArg Prod.snd hself, .refl (hplain.along hthere)⟩
  · obtain ⟨hdirs, hclear⟩ := hparent.resolve_left hthere
    have hne : names ≠ [] := by
      rintro rfl
      rw [List.append_nil] at hthere
      exact hthere hplain.home
    obtain ⟨u, hcreate, hmade⟩ := FileTree.exists_createDirectories hplain
      (IsOrdinary.front hnames) (Nat.le_trans (length_relative_le names name) hshort) hclear
    have hdirectory : t.createDirectories r.directory = (u, .ok ()) := by
      rw [directory_of_names hnames hpath, if_neg hne, hcreate]
    unfold prepared
    rw [if_pos hdirs, hdirectory]
    exact ⟨fun _ => rfl, hmade⟩

/-- **When a replacement succeeds** in a tree without links, under a path made of names. -/
theorem run_of_names_iff :
    (∃ t', r.run t = (t', .ok ())) ↔
      t.HasPlace r.createDirs names name ∧
      (t.fromRoot (relative (names ++ [.ofText name.text]))).size +
        (if names = [] then 14 else 12) ≤ pathLimit ∧
      ∃ k ∈ r.tries, t.get? (t.home ++ names ++
        [.ofText ("." ++ name.text ++ "." ++ suffix k ++ ".tmp")]) = none := by
  have hshort := size_relative_le hfits
  have hgrows := r.prepared_grows t
  have hlimit : ∀ last : RawText,
      last.text.utf8ByteSize + 12 ≤ nameLimit ↔ last.text.utf8ByteSize ≤ 243 := by
    intro last
    unfold nameLimit
    omega
  have hentry : ∀ dir last, (r.prepared t).Names (relative (names ++ [name])) dir last ↔
      dir = t.home ++ names ∧ last = name ∧
        (r.prepared t).Along (· = some .directory) t.home names := by
    intro dir last
    rw [FileTree.names_relative_iff (hgrows.noLink hplain.noLink) hnames hshort, hgrows.home]
  have hroot : (r.prepared t).fromRoot (r.tempPath 0) = t.fromRoot (r.tempPath 0) := by
    unfold FileTree.fromRoot
    rw [hgrows.home]
  rw [exists_run_eq_ok_iff, hroot, checkPath_fromRoot_iff hnames hpath hplain]
  simp only [tempName_of_names hnames hpath, hlimit, hpath, hentry]
  constructor
  · rintro ⟨-, -, dir, last, ⟨rfl, rfl, halong⟩, hwas, hshort, hroom, k, hk, hfree⟩
    refine ⟨⟨fun hthere => hwas (hgrows.get?_eq_some hthere), hshort, ?_⟩, hroom, k, hk,
      hgrows.get?_eq_none hfree⟩
    by_cases hdirs : r.createDirs = true
    · refine Or.inr ⟨hdirs, fun front hfront => ?_⟩
      rcases hgrows.old_or_new (t.home ++ front) with hold | ⟨hnone, -⟩
      · exact Or.inr (hold ▸ halong front hfront)
      · exact Or.inl hnone
    · have hprepared : r.prepared t = t := by
        unfold prepared
        rw [if_neg hdirs]
      rw [hprepared] at halong
      exact Or.inl halong.last
  · rintro ⟨⟨htarget, hshort, hparent⟩, hroom, k, hk, hfree⟩
    obtain ⟨hdirs, hmade⟩ := made_of_parent hnames hpath hplain hfits hparent
    have hbehind := fun last => hmade.behind last
    simp only [← List.append_assoc] at hbehind
    refine ⟨hdirs, endsInSlash_relative hnames, _, _, ⟨rfl, rfl, hmade.along⟩, ?_, hshort, hroom,
      k, hk, ?_⟩
    · rwa [hbehind]
    · rwa [hbehind]

end

end Replacement

open DocStore.Path

section

variable {σ : Type} {o : SaveOptions} {budget : Nat} {t : FileTree} {names : List RawText}
  {name : RawText} {n : Node} {encoded : Except EncodeError Json}

/-- **When a save succeeds** in a tree without links, under a path made of names: if the
node encodes, there is a place for the file, the path of the temporary file from the root
is not too long, and one of the temporary names that are tried is free. -/
theorem save_succeeds_iff (current : σ) (htree : t.Plain)
    (hnames : ∀ c ∈ names ++ [name], IsOrdinary c)
    (hfits : (relative (names ++ [.ofText name.text])).size + 12 ≤ pathLimit)
    (tries : List Nat) (hjson : o.encoder.toJson budget n = some encoded) :
    ∃ saved, save current o budget t (relative (names ++ [name])) n tries = some saved ∧
      (saved.outcome = .ok () ↔
        (∃ v, encoded = .ok v) ∧ t.HasPlace o.createDirs names name ∧
        (t.fromRoot (relative (names ++ [.ofText name.text]))).size +
          (if names = [] then 14 else 12) ≤ pathLimit ∧
        ∃ k ∈ tries, t.get? (t.home ++ names ++
          [.ofText ("." ++ name.text ++ "." ++ suffix k ++ ".tmp")]) = none) := by
  obtain ⟨saved, hsave, hok⟩ :=
    save_ok_iff_run current o t (relative (names ++ [name])) tries hjson
  refine ⟨saved, hsave, hok.trans ?_⟩
  have hrun := fun v => Replacement.run_of_names_iff
    (r := o.replacement (relative (names ++ [name])) (Text.bytes (Json.pretty v)) tries) hnames rfl
    htree hfits
  constructor
  · rintro ⟨v, hv, hput⟩
    exact ⟨⟨v, hv⟩, (hrun v).1 hput⟩
  · rintro ⟨⟨v, hv⟩, hput⟩
    exact ⟨v, hv, (hrun v).2 hput⟩

end

/-- A tree whose home is the root, with files in it and nothing else. -/
theorem FileTree.plain_of_files {t : FileTree} (hhome : t.home = [])
    (hfiles : ∀ l, l ≠ [] → t.get? l = none ∨
      (∃ mode content, t.get? l = some (.file mode content)) ∧ ∃ name, l = [name]) : t.Plain := by
  refine ⟨by rw [hhome]; rfl, fun l name hsome => ?_, fun l target hlink => ?_, ?_⟩
  · rcases hfiles (l ++ [name]) (by simp) with hnone | ⟨-, last, hl⟩
    · exact absurd hnone hsome
    · have hnil : l = [] := by simpa using congrArg List.dropLast hl
      rw [hnil]
      rfl
  · by_cases hl : l = []
    · subst hl
      cases hlink
    · rcases hfiles l hl with hnone | ⟨⟨mode, content, hfile⟩, -⟩
      · rw [hnone] at hlink
        cases hlink
      · rw [hfile] at hlink
        cases hlink
  · rw [hhome]
    simp

theorem FileTree.plain_empty : FileTree.Plain {} :=
  plain_of_files rfl fun _ hl => Or.inl (get?_empty hl)

/-- In a tree that has nothing there is a place for every file. -/
theorem FileTree.hasPlace_empty (names : List RawText) {name : RawText}
    (hshort : name.text.utf8ByteSize ≤ 243) : FileTree.HasPlace {} true names name := by
  refine ⟨?_, hshort, Or.inr ⟨rfl, fun front _ => ?_⟩⟩
  · rw [get?_empty (by simp)]
    simp
  · by_cases hfront : front = []
    · subst hfront
      exact Or.inr rfl
    · exact Or.inl (get?_empty (by simpa using hfront))

/-- A save into a directory that is made for it, in a tree that has nothing. -/
theorem save_succeeds_iff_newDirectory :
    ∃ saved : Saved Unit, save () { createDirs := true } 1 {} "a/x" .null = some saved ∧
      saved.outcome = .ok () := by
  have hnames : ∀ c ∈ ([.ofText "a"] ++ [.ofText "x"] : List RawText), IsOrdinary c := by decide
  have hpath : relative ([.ofText "a"] ++ [.ofText "x"]) = .ofText "a/x" := by decide
  have hjson : Encoder.strict.toJson 1 .null = some (.ok .null) := rfl
  obtain ⟨rest, hrest⟩ := Temporary.exists_suffixesInOrder_eq {}
  obtain ⟨saved, hsave, hok⟩ := save_succeeds_iff (o := { createDirs := true }) ()
    FileTree.plain_empty hnames (by rw [RawText.text_ofText]; decide)
    (FileTree.suffixesInOrder {}) hjson
  rw [hpath] at hsave
  rw [RawText.text_ofText] at hok
  refine ⟨saved, hsave, hok.2 ⟨⟨_, rfl⟩, FileTree.hasPlace_empty _ ?_, by decide, 0, ?_, ?_⟩⟩
  · rw [RawText.text_ofText]
    decide
  · rw [hrest]
    exact List.mem_cons_self
  · exact FileTree.get?_empty (by simp)

/-! ## Saves that fail all the same -/

/-- A name of as many letters. -/
def longName (size : Nat) : RawText := .ofText (String.ofList (List.replicate size 'a'))

theorem bytes_longName (size : Nat) : (longName size).bytes = List.replicate size 0x61 := by
  have hletter : String.utf8EncodeChar 'a' = [0x61] := by decide
  rw [longName, RawText.ofText, Text.bytes_ofList, List.flatMap_replicate, hletter]
  exact List.flatten_replicate_singleton

theorem size_longName (size : Nat) : (longName size).size = size := by
  rw [RawText.size, bytes_longName, List.length_replicate]

theorem ofText_text_longName (size : Nat) : RawText.ofText (longName size).text = longName size := by
  rw [longName, RawText.text_ofText]

theorem utf8ByteSize_longName (size : Nat) : (longName size).text.utf8ByteSize = size := by
  rw [← RawText.size_ofText, ofText_text_longName, size_longName]

/-- Bytes that are all the same make a name, unless they are dots, slashes or NUL. -/
theorem isOrdinary_of_replicate {name : RawText} {size : Nat} {b : UInt8}
    (hname : name.bytes = List.replicate size b) (hpos : 0 < size) (hshort : size ≤ nameLimit)
    (hb : b ≠ 0x2E ∧ b ≠ slash ∧ b ≠ 0) : IsOrdinary name := by
  have hmem : ∀ c ∈ name.bytes, c = b := by
    rw [hname]
    exact fun c => List.eq_of_mem_replicate
  have hne : ∀ other : RawText, 0x2E ∈ other.bytes → name ≠ other := by
    rintro _ hdot rfl
    exact hb.1 (hmem _ hdot).symm
  refine ⟨⟨hne _ (by decide), hne _ (by decide), ?_⟩, ?_, ?_, ?_⟩
  · rwa [RawText.size, hname, List.length_replicate]
  · rw [hname, ne_eq, List.replicate_eq_nil_iff]
    exact Nat.ne_of_gt hpos
  · exact fun hslash => hb.2.1 (hmem _ hslash).symm
  · exact fun hnul => hb.2.2 (hmem _ hnul).symm

theorem isOrdinary_longName {size : Nat} (hpos : 0 < size) (hshort : size ≤ nameLimit) :
    IsOrdinary (longName size) :=
  isOrdinary_of_replicate (bytes_longName size) hpos hshort (by decide)

/-- Names of one size take a slash each. -/
theorem size_relative_replicate (count : Nat) (c name : RawText) :
    (relative (List.replicate count c ++ [name])).size = count * (c.size + 1) + name.size := by
  have hslash : (RawText.mk [slash]).size = 1 := rfl
  induction count generalizing name with
  | zero => rw [List.replicate_zero, List.nil_append, relative_singleton, Nat.zero_mul, Nat.zero_add]
  | succ count ih =>
    have hne : List.replicate count c ++ [c] ≠ [] := by simp
    rw [List.replicate_succ', relative_concat hne, RawText.size_append, RawText.size_append, ih,
      hslash, Nat.succ_mul]
    omega

/-- Names as long as names can be, and as many as a path can hold. -/
def longWay : List RawText := List.replicate 15 (longName 255)

theorem isOrdinary_longWay : ∀ c ∈ longWay ++ [longName 243], IsOrdinary c := by
  intro c hc
  rcases List.mem_append.1 hc with hc | hc
  · rw [List.eq_of_mem_replicate hc]
    exact isOrdinary_longName (by decide) (by decide)
  · rw [List.mem_singleton.1 hc]
    exact isOrdinary_longName (by decide) (by decide)

theorem size_longWay : (relative (longWay ++ [longName 243])).size = 4083 := by
  unfold longWay
  rw [size_relative_replicate, size_longName, size_longName]

theorem fits_longWay :
    (relative (longWay ++ [.ofText (longName 243).text])).size + 12 ≤ pathLimit := by
  rw [ofText_text_longName, size_longWay]
  decide

/-- **A path that is short enough from the home** may be too long from the root, if only by
the slash in front. -/
theorem run_longWay_fails (o : SaveOptions) (content : List UInt8) (tries : List Nat)
    (t' : FileTree) :
    (o.replacement (relative (longWay ++ [longName 243])) content tries).run {} ≠ (t', .ok ()) := by
  intro hrun
  obtain ⟨-, hroom, -⟩ := (Replacement.run_of_names_iff
    (r := o.replacement (relative (longWay ++ [longName 243])) content tries) isOrdinary_longWay rfl
    FileTree.plain_empty fits_longWay).1 ⟨t', hrun⟩
  have hroot : FileTree.fromRoot {} (relative (longWay ++ [longName 243])) =
      ⟨[slash]⟩ ++ relative (longWay ++ [longName 243]) := by
    unfold FileTree.fromRoot
    rw [isAbsolute_relative isOrdinary_longWay, if_neg Bool.false_ne_true]
    rfl
  have hne : longWay ≠ [] := List.cons_ne_nil _ _
  rw [ofText_text_longName, hroot, if_neg hne, RawText.size_append, size_longWay] at hroom
  exact absurd hroom (by decide)

/-- The name of a temporary file beside `x`. -/
def besideX (k : Nat) : RawText := .ofText ("." ++ "x" ++ "." ++ suffix k ++ ".tmp")

/-- A tree in which temporary names of `x` are taken, as many as said. -/
def crowded : Nat → FileTree
  | 0 => {}
  | count + 1 => (crowded count).put [besideX count] (.file publicMode [])

theorem home_crowded (count : Nat) : (crowded count).home = [] := by
  induction count with
  | zero => rfl
  | succ count ih => rw [crowded, FileTree.home_put, ih]

/-- Nothing else is there. -/
theorem get?_crowded_cases (count : Nat) {l : Location} (hl : l ≠ []) :
    (crowded count).get? l = none ∨
      (∃ mode content, (crowded count).get? l = some (.file mode content)) ∧
        ∃ name, l = [name] := by
  induction count with
  | zero => exact Or.inl (FileTree.get?_empty hl)
  | succ count ih =>
    rw [crowded]
    by_cases heq : l = [besideX count]
    · subst heq
      exact Or.inr ⟨⟨_, _, FileTree.get?_put_self hl⟩, _, rfl⟩
    · rwa [FileTree.get?_put_of_ne heq]

theorem get?_crowded {count k : Nat} (hk : k < count) :
    (crowded count).get? [besideX k] ≠ none := by
  induction count with
  | zero => omega
  | succ count ih =>
    rw [crowded]
    by_cases heq : [besideX k] = [besideX count]
    · rw [heq, FileTree.get?_put_self (by simp)]
      exact Option.some_ne_none _
    · rw [FileTree.get?_put_of_ne heq]
      refine ih (Nat.lt_of_le_of_ne (Nat.le_of_lt_succ hk) ?_)
      rintro rfl
      exact heq rfl

theorem plain_crowded (count : Nat) : (crowded count).Plain :=
  FileTree.plain_of_files (home_crowded count) fun _ hl => get?_crowded_cases count hl

theorem hasPlace_crowded (count : Nat) : (crowded count).HasPlace false [] (.ofText "x") := by
  have hhome := (plain_crowded count).home
  refine ⟨fun hthere => ?_, by rw [RawText.text_ofText]; decide,
    Or.inl (by rwa [List.append_nil])⟩
  rcases get?_crowded_cases count (l := (crowded count).home ++ [] ++ [.ofText "x"]) (by simp)
    with hnone | ⟨⟨mode, content, hfile⟩, -⟩
  · rw [hnone] at hthere
    cases hthere
  · rw [hfile] at hthere
    cases hthere

theorem isOrdinary_x : ∀ c ∈ ([] ++ [.ofText "x"] : List RawText), IsOrdinary c := by decide

theorem fits_x :
    (relative ([] ++ [.ofText (RawText.ofText "x").text])).size + 12 ≤ pathLimit := by
  rw [RawText.text_ofText]
  decide

theorem lt_of_mem_suffixesInOrder {t : FileTree} {k : Nat} (hk : k ∈ t.suffixesInOrder) :
    k < suffixCount :=
  Nat.lt_of_lt_of_le (List.mem_range.1 hk) (Nat.min_le_right ..)

/-- **All temporary names may be taken.** -/
theorem run_crowded_fails (o : SaveOptions) (content : List UInt8) {tries : List Nat}
    (htries : ∀ k ∈ tries, k < suffixCount) (t' : FileTree) :
    (o.replacement (relative ([] ++ [.ofText "x"])) content tries).run (crowded suffixCount) ≠
      (t', .ok ()) := by
  intro hrun
  obtain ⟨-, -, k, hk, hfree⟩ := (Replacement.run_of_names_iff
    (r := o.replacement (relative ([] ++ [.ofText "x"])) content tries)
    isOrdinary_x rfl (plain_crowded suffixCount) fits_x).1 ⟨t', hrun⟩
  rw [home_crowded, RawText.text_ofText] at hfree
  exact get?_crowded (htries k hk) hfree

/-- A name that is not in UTF-8. What is shown of it is three times as long. -/
def brokenName : RawText := ⟨List.replicate 82 0xFF⟩

theorem size_brokenName : brokenName.size = 82 := List.length_replicate

theorem utf8ByteSize_brokenName : brokenName.text.utf8ByteSize = 246 := by decide +kernel

theorem isOrdinary_brokenName : ∀ c ∈ ([] ++ [brokenName] : List RawText), IsOrdinary c := by
  intro c hc
  obtain rfl := List.mem_singleton.1 hc
  have hbytes : brokenName.bytes = List.replicate 82 0xFF := rfl
  exact isOrdinary_of_replicate hbytes (by decide) (by decide) (by decide)

theorem fits_brokenName :
    (relative ([] ++ [.ofText brokenName.text])).size + 12 ≤ pathLimit := by
  rw [List.nil_append, relative_singleton, RawText.size_ofText, utf8ByteSize_brokenName]
  decide

/-- **A name may be short and shown as one that is too long.** -/
theorem run_brokenName_fails (o : SaveOptions) (content : List UInt8) (tries : List Nat)
    (t' : FileTree) :
    (o.replacement (relative ([] ++ [brokenName])) content tries).run {} ≠ (t', .ok ()) := by
  intro hrun
  obtain ⟨hplace, -⟩ := (Replacement.run_of_names_iff
    (r := o.replacement (relative ([] ++ [brokenName])) content tries)
    isOrdinary_brokenName rfl FileTree.plain_empty fits_brokenName).1 ⟨t', hrun⟩
  have hshort := hplace.short
  rw [utf8ByteSize_brokenName] at hshort
  omega

/-- **A place for the file is not enough.** The path of the temporary file may be too long
from the root, all temporary names may be taken, and a name with room for that of a temporary
file may be shown as one without. -/
theorem save_fails_despite_place :
    (∃ saved : Saved Unit,
      FileTree.Plain {} ∧ (∀ c ∈ longWay ++ [longName 243], IsOrdinary c) ∧
      (relative (longWay ++ [.ofText (longName 243).text])).size + 12 ≤ pathLimit ∧
      Encoder.strict.toJson 1 .null = some (.ok .null) ∧
      FileTree.HasPlace {} true longWay (longName 243) ∧
      save () { createDirs := true } 1 {} (relative (longWay ++ [longName 243])) .null =
        some saved ∧
      saved.outcome ≠ .ok ()) ∧
    (∃ saved : Saved Unit,
      (crowded suffixCount).Plain ∧ (∀ c ∈ ([] ++ [.ofText "x"] : List RawText), IsOrdinary c) ∧
      (relative ([] ++ [.ofText (RawText.ofText "x").text])).size + 12 ≤ pathLimit ∧
      Encoder.strict.toJson 1 .null = some (.ok .null) ∧
      (crowded suffixCount).HasPlace false [] (.ofText "x") ∧
      save () {} 1 (crowded suffixCount) (relative ([] ++ [.ofText "x"])) .null = some saved ∧
      saved.outcome ≠ .ok ()) ∧
    ∃ saved : Saved Unit,
      FileTree.Plain {} ∧ (∀ c ∈ ([] ++ [brokenName] : List RawText), IsOrdinary c) ∧
      (relative ([] ++ [.ofText brokenName.text])).size + 12 ≤ pathLimit ∧
      Encoder.strict.toJson 1 .null = some (.ok .null) ∧
      FileTree.get? {} [brokenName] = none ∧ brokenName.size ≤ 243 ∧
      FileTree.get? {} [] = some .directory ∧
      save () {} 1 {} (relative ([] ++ [brokenName])) .null = some saved ∧
      saved.outcome ≠ .ok () := by
  have hjson : Encoder.strict.toJson 1 .null = some (.ok .null) := rfl
  refine ⟨?_, ?_, ?_⟩
  · obtain ⟨saved, hsave, hok⟩ := save_ok_iff_run () { createDirs := true } {}
      (relative (longWay ++ [longName 243])) (FileTree.suffixesInOrder {}) hjson
    have hshort : (longName 243).text.utf8ByteSize ≤ 243 := Nat.le_of_eq (utf8ByteSize_longName 243)
    refine ⟨saved, FileTree.plain_empty, isOrdinary_longWay, fits_longWay, hjson,
      FileTree.hasPlace_empty longWay hshort, hsave, fun hsucceeds => ?_⟩
    obtain ⟨v, -, t', hrun⟩ := hok.1 hsucceeds
    exact run_longWay_fails _ _ _ t' hrun
  · obtain ⟨saved, hsave, hok⟩ := save_ok_iff_run () {} (crowded suffixCount)
      (relative ([] ++ [.ofText "x"])) (crowded suffixCount).suffixesInOrder hjson
    refine ⟨saved, plain_crowded suffixCount, isOrdinary_x, fits_x, hjson,
      hasPlace_crowded suffixCount, hsave, fun hsucceeds => ?_⟩
    obtain ⟨v, -, t', hrun⟩ := hok.1 hsucceeds
    exact run_crowded_fails _ _ (fun k => lt_of_mem_suffixesInOrder) t' hrun
  · obtain ⟨saved, hsave, hok⟩ := save_ok_iff_run () {} {}
      (relative ([] ++ [brokenName])) (FileTree.suffixesInOrder {}) hjson
    refine ⟨saved, FileTree.plain_empty, isOrdinary_brokenName, fits_brokenName, hjson,
      FileTree.get?_empty (by simp), by rw [size_brokenName]; decide, rfl, hsave, fun hsucceeds => ?_⟩
    obtain ⟨v, -, t', hrun⟩ := hok.1 hsucceeds
    exact run_brokenName_fails _ _ _ t' hrun

end DocStore
