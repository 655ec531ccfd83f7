import DocStore.Proofs.Saving.Alone
import DocStore.Proofs.Saving.FreeNames
import DocStore.Saving.Save
/-!
# A save is all or nothing

What a save does to a tree depends on its outcome alone. A value that does not
encode leaves the tree as it is. A replacement that fails leaves all that was
there, and at most makes directories. One that succeeds replaces the target as
a whole. The path leads to what was written, but for one case: a path that
leads through a link to that very link, which is gone then.
-/

namespace DocStore

variable {σ : Type}

/-- The tree with the directories made that lead to a path, where the options
ask for them. -/
def SaveOptions.prepared (o : SaveOptions) (t : FileTree) (path : RawText) : FileTree :=
  if o.createDirs then (t.createDirectories (Path.directory path)).1 else t

/-- The mode of a file that is saved. -/
def SaveOptions.mode (o : SaveOptions) : Nat := if o.isPrivate then 0o600 else 0o644

/-- **A save is all or nothing**, when encoding gives `encoded`. -/
structure Saved.Whole (o : SaveOptions) (t : FileTree) (path : RawText)
    (encoded : Except EncodeError Json) (saved : Saved σ) : Prop where
  unencodable_iff : (∃ p message cause, saved.outcome = .error (.unencodable p message cause)) ↔
    ∃ cause, encoded = .error cause
  untouched : ∀ p message cause, saved.outcome = .error (.unencodable p message cause) →
    saved.tree = t
  unwritable : ∀ p e, saved.outcome = .error (.unwritable p e) →
    saved.tree.home = t.home ∧ ∀ l, saved.tree.get? l = (o.prepared t path).get? l
  written : saved.outcome = .ok () → ∃ v target, encoded = .ok v ∧
    (o.prepared t path).Replaced saved.tree path o.mode (Text.bytes (Json.pretty v)) target ∧
    saved.tree.read path =
      if target ∈ (o.prepared t path).linksThrough path then .error .notDirectory
      else .ok (Text.bytes (Json.pretty v))

namespace SaveOptions

theorem prepared_grows (o : SaveOptions) (t : FileTree) (path : RawText) :
    t.Grows (o.prepared t path) :=
  (o.replacement path [] []).prepared_grows t

theorem prepared_eq_self {o : SaveOptions} (h : o.createDirs = false) (t : FileTree)
    (path : RawText) : o.prepared t path = t := by
  rw [prepared, if_neg (by simp [h])]

end SaveOptions

section

variable {o : SaveOptions} {budget : Nat} {n : Node}

/-- A node that encodes is saved as the text of its value. -/
theorem save_of_value {w : Json} (h : o.encoder.toJson budget n = some (.ok w)) (current : σ)
    (t : FileTree) (path : RawText) (tries : List Nat) :
    save current o budget t path n tries = some (saveText current o t path w.pretty tries) := by
  rw [save, Encoder.toText, h]
  rfl

/-- A node that does not encode is refused, with the fault explained. -/
theorem save_of_fault {cause : EncodeError} (h : o.encoder.toJson budget n = some (.error cause))
    (current : σ) (t : FileTree) (path : RawText) (tries : List Nat) :
    save current o budget t path n tries =
      some (.failed current t (.unencodable path
        (unencodableMessage path (explanation o budget n cause)) cause)) := by
  rw [save, Encoder.toText, h]
  rfl

end

/-- A save that failed to encode. -/
theorem Saved.whole_failed (current : σ) (o : SaveOptions) (t : FileTree)
    (path : RawText) (message : String) (cause : EncodeError) :
    Saved.Whole o t path (.error cause)
      (Saved.failed current t (.unencodable path message cause)) := by
  refine ⟨iff_of_true ⟨path, message, cause, rfl⟩ ⟨cause, rfl⟩, fun _ _ _ _ => rfl, ?_, ?_⟩
  · intro p e h
    cases h
  · intro h
    cases h

/-- A save whose text can be put in place. -/
theorem exists_save_of_run (current : σ) {o : SaveOptions} {budget : Nat} {t t' : FileTree}
    {path : RawText} {n : Node} {w : Json} {tries : List Nat}
    (hjson : o.encoder.toJson budget n = some (.ok w))
    (hrun : (o.replacement path (Text.bytes (Json.pretty w)) tries).run t = (t', .ok ())) :
    save current o budget t path n tries =
      some ⟨t', .ok (), [⟨current, .saved path (Json.pretty w).utf8ByteSize⟩]⟩ := by
  rw [save_of_value hjson current t path tries, saveText, hrun]

/-- A save of a text. -/
theorem Saved.whole_saveText (current : σ) (o : SaveOptions) (t : FileTree) (path : RawText)
    (v : Json) (tries : List Nat) :
    Saved.Whole o t path (.ok v) (saveText current o t path (Json.pretty v) tries) := by
  cases hrun : (o.replacement path (Text.bytes (Json.pretty v)) tries).run t with
  | mk t' outcome =>
    cases outcome with
    | error e =>
      have hsaved : saveText current o t path (Json.pretty v) tries =
          .failed current t' (.unwritable path e) := by rw [saveText, hrun]
      obtain ⟨hhome, hsame⟩ := Replacement.same_of_run_eq_error hrun
      rw [hsaved]
      refine ⟨?_, ?_, fun p e' h => ⟨hhome.trans (o.prepared_grows t path).home, hsame⟩, ?_⟩
      · refine iff_of_false ?_ ?_
        · rintro ⟨p, message, cause, h⟩
          cases h
        · rintro ⟨cause, h⟩
          cases h
      · intro p message cause h
        cases h
      · intro h
        cases h
    | ok u =>
      have hsaved : saveText current o t path (Json.pretty v) tries =
          ⟨t', .ok (), [⟨current, .saved path (Json.pretty v).utf8ByteSize⟩]⟩ := by
        rw [saveText, hrun]
      obtain ⟨target, hreplaced⟩ := Replacement.replaced_of_run_eq_ok hrun
      rw [hsaved]
      refine ⟨?_, ?_, ?_, fun _ => ⟨v, target, rfl, hreplaced, hreplaced.read_eq⟩⟩
      · refine iff_of_false ?_ ?_
        · rintro ⟨p, message, cause, h⟩
          cases h
        · rintro ⟨cause, h⟩
          cases h
      · intro p message cause h
        cases h
      · intro p e h
        cases h

theorem save_eq_some (current : σ) (o : SaveOptions) (budget : Nat) (t : FileTree) (path : RawText)
    (tries : List Nat) {n : Node} {encoded : Except EncodeError Json}
    (h : o.encoder.toJson budget n = some encoded) :
    ∃ saved, save current o budget t path n tries = some saved ∧
      saved.Whole o t path encoded := by
  cases encoded with
  | error cause =>
    exact ⟨_, save_of_fault h current t path tries, Saved.whole_failed current o t path _ cause⟩
  | ok v =>
    exact ⟨_, save_of_value h current t path tries, Saved.whole_saveText current o t path v tries⟩

/-- **Every save is all or nothing**, of nodes and of described values alike, and
whatever names chance gives the temporary file. It comes to an end where encoding
does, and is called unencodable exactly if the value cannot be captured or
encoded. -/
theorem save_whole (current : σ) (o : SaveOptions) (budget : Nat) (t : FileTree) (path : RawText)
    (tries : List Nat) :
    t.Grows (o.prepared t path) ∧ (o.createDirs = false → o.prepared t path = t) ∧
    (∀ n encoded, o.encoder.toJson budget n = some encoded →
      ∃ saved, save current o budget t path n tries = some saved ∧
        saved.Whole o t path encoded) ∧
    (∀ p cause, p.capture = .error cause →
      ∃ saved, saveDescribed current o budget t path p tries = some saved ∧
        saved.Whole o t path (.error cause)) ∧
    ∀ p n encoded, p.capture = .ok n → o.encoder.toJson budget n = some encoded →
      ∃ saved, saveDescribed current o budget t path p tries = some saved ∧
        saved.Whole o t path encoded := by
  refine ⟨o.prepared_grows t path, fun hdirs => SaveOptions.prepared_eq_self hdirs t path,
    fun n encoded hjson => save_eq_some current o budget t path tries hjson,
    fun p cause hcapture => ?_, fun p n encoded hcapture hjson => ?_⟩
  · exact ⟨_, by rw [saveDescribed, hcapture], Saved.whole_failed current o t path _ cause⟩
  · rw [saveDescribed, hcapture]
    exact save_eq_some current o budget t path tries hjson

/-- A save in the place of a link that leads nowhere. -/
theorem save_whole_of_link :
    ∃ saved : Saved Unit, save () {} 1 (FileTree.put {} ["a"] (.link "b")) "a" .null = some saved ∧
      saved.Whole {} (FileTree.put {} ["a"] (.link "b")) "a" (.ok .null) :=
  (save_whole () {} 1 (FileTree.put {} ["a"] (.link "b")) "a" _).2.2.1 .null (.ok .null) rfl

/-! ## A tree that has nothing -/

namespace emptyTree

variable {r : Replacement} {path name : RawText}

/-- A name alone is one at the root. -/
theorem names_of_pieces (haccepted : FileTree.checkPath path = .ok ())
    (hpieces : Path.pieces path = [name]) (hdot : name ≠ Path.dot) (hdots : name ≠ Path.dots) :
    FileTree.Names {} path [] name := by
  have hstart : FileTree.start {} path = [] := by
    rw [FileTree.start]
    split <;> rfl
  refine ⟨haccepted, by rw [hpieces]; rfl, hdot, hdots, ?_⟩
  rw [hstart, hpieces, List.dropLast_singleton, FileTree.locate_nil]
  rfl

theorem names_deep : FileTree.Names {} "deep.json" [] "deep.json" :=
  names_of_pieces (by decide) (by decide) (by decide) (by decide)

theorem linksThrough_deep : FileTree.linksThrough {} "deep.json" = [] := by
  have hwalk : (Path.pieces "deep.json").dropLast = [] := by decide
  rw [FileTree.linksThrough, hwalk, FileTree.linksFollowed]

/-- **A save into a tree that has nothing succeeds.** -/
theorem exists_run_eq_ok (hpath : r.path = "deep.json") (hdirs : r.createDirs = false)
    {rest : List Nat} (htries : r.tries = 0 :: rest) : ∃ t', r.run {} = (t', .ok ()) := by
  have hprepared : r.prepared {} = {} := by
    rw [Replacement.prepared, if_neg (by simp [hdirs])]
  have hnames : FileTree.Names {} r.path [] "deep.json" := by
    rw [hpath]
    exact names_deep
  have hslash : Path.endsInSlash r.path = false := by
    rw [hpath]
    decide
  have haccepted : FileTree.checkPath (FileTree.fromRoot {} (r.tempPath 0)) = .ok () := by
    rw [Replacement.tempPath, Replacement.tempName, Replacement.directory, Replacement.baseName,
      hpath]
    decide
  have hnth := Replacement.createNth_of_free hnames hslash (by decide) haccepted
    (FileTree.get?_empty (by simp))
  refine Replacement.exists_run_eq_ok (by simp [hdirs])
    (by rw [hprepared, htries]; exact Temporary.createTemp_eq_of_createNth hnth rest)
    (by rw [hprepared]; exact hnames) hslash (by decide) ?_
  rw [hprepared, FileTree.get?_empty (by simp)]
  simp

/-- A save of what encodes. -/
theorem exists_save (current : σ) {o : SaveOptions} (hdirs : o.createDirs = false) {budget : Nat}
    {n : Node} {w : Json} (hjson : o.encoder.toJson budget n = some (.ok w)) {tries rest : List Nat}
    (htries : tries = 0 :: rest) :
    ∃ t', save current o budget {} "deep.json" n tries =
      some ⟨t', .ok (), [⟨current, .saved "deep.json" (Json.pretty w).utf8ByteSize⟩]⟩ := by
  obtain ⟨t', hrun⟩ := exists_run_eq_ok
    (r := o.replacement "deep.json" (Text.bytes (Json.pretty w)) tries) rfl hdirs htries
  exact ⟨t', exists_save_of_run current hjson hrun⟩

end emptyTree

/-! ## A path that leads through its own target -/

/-- A directory, and a link to it. -/
def linkedShelf : FileTree := (FileTree.put {} ["shelf"] .directory).put ["way"] (.link "shelf")

namespace linkedShelf

theorem get?_shelf : linkedShelf.get? ["shelf"] = some .directory := by
  rw [linkedShelf, FileTree.get?_put_of_ne (by simp), FileTree.get?_put_self (by simp)]

theorem get?_way : linkedShelf.get? ["way"] = some (.link "shelf") :=
  FileTree.get?_put_self (by simp)

theorem get?_eq_none {l : Location} (hnil : l ≠ []) (hshelf : l ≠ (["shelf"] : Location))
    (hway : l ≠ (["way"] : Location)) : linkedShelf.get? l = none := by
  rw [linkedShelf, FileTree.get?_put_of_ne hway, FileTree.get?_put_of_ne hshelf]
  simp [FileTree.get?, hnil]

/-- The path leads through the link and back to where the link is. -/
theorem names_way :
    linkedShelf.Names "way/../way" [] "way" ∧
      linkedShelf.linksThrough "way/../way" = ([["way"]] : List Location) := by
  have hpieces : Path.pieces "way/../way" = (["way", Path.dots, "way"] : Location) := by decide
  have hsteps : Path.steps "shelf" = (["shelf"] : Location) := by decide
  have hrelative : Path.isAbsolute "shelf" = false := by decide
  have hshort : RawText.size "way" = 3 ∧ RawText.size "shelf" = 5 := by decide
  have hway : RawText.ofText "way" ≠ Path.dot ∧ RawText.ofText "way" ≠ Path.dots := by decide
  have hshelf : RawText.ofText "shelf" ≠ Path.dot ∧ RawText.ofText "shelf" ≠ Path.dots := by
    decide
  have hstart : linkedShelf.start "way/../way" = [] := rfl
  have hwalk : linkedShelf.locate linkLimit [] ["way", Path.dots] = .ok ([], some .directory) := by
    simp [FileTree.locate, linkLimit, nameLimit, get?_way, get?_shelf, hsteps, hrelative,
      hshort, hway, hshelf]
  have hlinks : linkedShelf.linksFollowed linkLimit [] ["way", Path.dots] =
      ([["way"]] : List Location) := by
    simp [FileTree.linksFollowed, linkLimit, get?_way, get?_shelf, hsteps, hrelative,
      hway, hshelf]
  refine ⟨⟨by decide, by rw [hpieces]; rfl, by decide, by decide, ?_⟩, ?_⟩
  · rw [hpieces, hstart]
    exact hwalk
  · rw [FileTree.linksThrough, hpieces, hstart]
    exact hlinks

variable {r : Replacement} {t t' : FileTree} {k : Nat}

/-- The temporary files of replacements under that path. -/
theorem tempName_way (hpath : r.path = "way/../way") :
    r.tempName 0 = ".way.000000.tmp" ∧ r.tempName 1 = ".way.100000.tmp" := by
  rw [Replacement.tempName, Replacement.tempName, Replacement.baseName, hpath]
  decide

theorem get?_tempName (hpath : r.path = "way/../way") :
    linkedShelf.get? [r.tempName 0] = none ∧ linkedShelf.get? [r.tempName 1] = none := by
  obtain ⟨hzero, hone⟩ := tempName_way hpath
  rw [hzero, hone]
  exact ⟨get?_eq_none (by simp) (by decide) (by decide),
    get?_eq_none (by simp) (by decide) (by decide)⟩

/-- **Two temporary files can be created under that path**, where their names are free. -/
theorem createNth_way (hpath : r.path = "way/../way") (hhome : t.home = [])
    (hnames : t.Names "way/../way" [] "way") (hk : k = 0 ∨ k = 1)
    (hfree : t.get? [r.tempName k] = none) :
    r.createNth t k =
      .ok (t.put [r.tempName k] (.file privateMode []), ⟨r.tempPath k, [r.tempName k]⟩) := by
  obtain ⟨hzero, hone⟩ := tempName_way hpath
  have hdirectory : r.directory = "way/.." := by
    rw [Replacement.directory, hpath]
    decide
  have haccepted : FileTree.checkPath (t.fromRoot (r.tempPath k)) = .ok () := by
    rw [FileTree.fromRoot, hhome, Replacement.tempPath_eq, hdirectory]
    rcases hk with rfl | rfl
    · rw [hzero]
      decide
    · rw [hone]
      decide
  rw [← hpath] at hnames
  exact Replacement.createNth_of_free hnames (by rw [hpath]; decide) (by decide) haccepted hfree

/-- Their paths lead through the target as well. -/
theorem linksThrough_tempPath (hpath : r.path = "way/../way") (k : Nat) :
    linkedShelf.linksThrough (r.tempPath k) = ([["way"]] : List Location) := by
  have hdirectory : r.directory = "way/.." := by
    rw [Replacement.directory, hpath]
    decide
  have hpieces : Path.pieces (r.tempPath k) = Path.pieces "way/.." ++ [r.tempName k] := by
    rw [Replacement.tempPath_eq, hdirectory,
      Path.pieces_join Replacement.tempName_ne_empty Replacement.not_mem_tempName]
  have hstart : linkedShelf.start (r.tempPath k) = linkedShelf.start "way/../way" := by
    rw [FileTree.start, Replacement.tempPath_eq, hdirectory, Path.isAbsolute_join (by decide)]
    rfl
  have hwalk : Path.pieces "way/.." = (Path.pieces "way/../way").dropLast := by decide
  rw [FileTree.linksThrough, hpieces, List.dropLast_concat, hstart, hwalk]
  exact names_way.2

/-- **A save under that path succeeds**, if it tries the first name. -/
theorem exists_run_eq_ok (hpath : r.path = "way/../way") (hdirs : r.createDirs = false)
    {rest : List Nat} (htries : r.tries = 0 :: rest) :
    ∃ t', r.run linkedShelf = (t', .ok ()) := by
  obtain ⟨hnames, -⟩ := names_way
  have hprepared : r.prepared linkedShelf = linkedShelf := by
    rw [Replacement.prepared, if_neg (by simp [hdirs])]
  have hnth := createNth_way hpath rfl hnames (Or.inl rfl) (get?_tempName hpath).1
  refine Replacement.exists_run_eq_ok (by simp [hdirs])
    (by rw [hprepared, htries]; exact Temporary.createTemp_eq_of_createNth hnth rest)
    (by rw [hprepared, hpath]; exact hnames) (by rw [hpath]; decide) (by decide) ?_
  rw [hprepared]
  simp [get?_way]

/-- The file that is saved replaces the link, and the path ends there. -/
theorem read_eq_error {r : Replacement} {t' : FileTree} (hpath : r.path = "way/../way")
    (hdirs : r.createDirs = false) (hrun : r.run linkedShelf = (t', .ok ())) :
    t'.read "way/../way" = .error .notDirectory := by
  obtain ⟨hnames, hlinks⟩ := names_way
  obtain ⟨target, hreplaced⟩ := Replacement.replaced_of_run_eq_ok hrun
  rw [Replacement.prepared, if_neg (by simp [hdirs]), hpath] at hreplaced
  obtain ⟨dir, name, hnames', htarget, -⟩ := hreplaced.named
  obtain ⟨rfl, rfl⟩ := hnames.unique hnames'
  rw [hreplaced.read_eq, if_pos (by rw [htarget, hlinks]; exact List.mem_singleton.2 rfl)]

/-- **A save of what encodes succeeds under that path, and a read of the path fails.** -/
theorem exists_save (current : σ) {o : SaveOptions} (hdirs : o.createDirs = false) {budget : Nat}
    {n : Node} {w : Json} (hjson : o.encoder.toJson budget n = some (.ok w)) :
    ∃ t', save current o budget linkedShelf "way/../way" n =
        some ⟨t', .ok (), [⟨current, .saved "way/../way" (Json.pretty w).utf8ByteSize⟩]⟩ ∧
      t'.read "way/../way" = .error .notDirectory := by
  obtain ⟨rest, hrest⟩ := Temporary.exists_suffixesInOrder_eq linkedShelf
  obtain ⟨t', hrun⟩ := exists_run_eq_ok
    (r := o.replacement "way/../way" (Text.bytes (Json.pretty w)) linkedShelf.suffixesInOrder)
    rfl hdirs hrest
  exact ⟨t', exists_save_of_run current hjson hrun, read_eq_error rfl hdirs hrun⟩

end linkedShelf

/-- **A path that was saved to successfully need not lead to what was saved.**
Here the saved file takes the place of a link that the path leads through. -/
theorem read_fails_after_save :
    ∃ saved : Saved Unit, save () {} 1 linkedShelf "way/../way" .null = some saved ∧
      saved.outcome = .ok () ∧ saved.tree.read "way/../way" = .error .notDirectory := by
  have hjson : Encoder.strict.toJson 1 .null = some (.ok .null) := rfl
  obtain ⟨t', hsave, hread⟩ := linkedShelf.exists_save () (o := {}) rfl hjson
  exact ⟨_, hsave, rfl, hread⟩

end DocStore
