import DocStore.Proofs.Files.Names
import DocStore.Proofs.Files.Operations
import Mathlib.Data.List.DropRight
/-!
# The directory that a path lies in

A path without its last part leads to the directory in which the path names an
entry. The two walks differ in `.` only, since idle pieces at the end are cut off
too. So where a path names an entry, its directory is there, and creating it with
all that lead to it changes nothing (`createDirectories_eq_self`).
-/

namespace DocStore

namespace Path

variable {path name : RawText} {first last : List UInt8} {ps qs mid : List (List UInt8)}

/-! ## Pieces and slashes -/

theorem intercalate_append (hps : ps ≠ []) (hqs : qs ≠ []) :
    [slash].intercalate (ps ++ qs) = [slash].intercalate ps ++ slash :: [slash].intercalate qs := by
  induction ps with
  | nil => exact absurd rfl hps
  | cons p rest ih =>
    cases rest with
    | nil => simp [List.intercalate_cons_of_ne_nil hqs]
    | cons p' rest =>
      have hrest := ih (List.cons_ne_nil p' rest)
      rw [List.cons_append, List.intercalate_cons_of_ne_nil (by simp), hrest,
        List.intercalate_cons_cons, List.append_assoc _ ([slash].intercalate _)]

/-- **What was cut at slashes is put together again.** -/
theorem intercalate_split (cs : List UInt8) : [slash].intercalate (split cs) = cs := by
  induction cs with
  | nil => rfl
  | cons c rest ih =>
    obtain ⟨piece, pieces, hrest⟩ := List.exists_cons_of_ne_nil (split_ne_nil rest)
    rw [split]
    split
    next hslash =>
      rw [List.intercalate_cons_of_ne_nil (split_ne_nil rest), ih, hslash]
      rfl
    next =>
      rw [hrest] at ih
      rw [hrest]
      cases pieces with
      | nil =>
        rw [List.intercalate_singleton] at ih
        rw [List.intercalate_singleton, ih]
      | cons p pieces =>
        rw [List.intercalate_cons_cons] at ih
        rw [List.intercalate_cons_cons, List.cons_append, List.cons_append, ih]

/-- **What was put together is cut at the same slashes**, if no piece has one. -/
theorem split_intercalate (hne : ps ≠ []) (hslash : ∀ p ∈ ps, slash ∉ p) :
    split ([slash].intercalate ps) = ps := by
  induction ps with
  | nil => exact absurd rfl hne
  | cons p rest ih =>
    obtain ⟨hp, hrest⟩ := List.forall_mem_cons.1 hslash
    cases rest with
    | nil => rw [List.intercalate_singleton, split_of_not_mem hp]
    | cons p' rest =>
      have hsplit := ih (List.cons_ne_nil p' rest) hrest
      rw [List.intercalate_cons_cons, List.append_assoc, List.singleton_append, split_append_slash,
        split_of_not_mem hp, hsplit]
      rfl

/-- **The last piece is the last name**, if the path does not end in a slash, and the
steps in front of it are the pieces in front that are not empty. -/
theorem split_eq_concat (hslash : endsInSlash path = false)
    (hlast : (pieces path).getLast? = some name) :
    name.bytes ≠ [] ∧ ∃ init, split path.bytes = init ++ [name.bytes] ∧
      (pieces path).dropLast = (init.filter (· ≠ [])).map RawText.mk := by
  obtain ⟨init, last, hsplit⟩ : ∃ init last, split path.bytes = init ++ [last] := by
    rcases List.eq_nil_or_concat' (split path.bytes) with hnil | ⟨init, last, hconcat⟩
    · exact absurd hnil (split_ne_nil _)
    · exact ⟨init, last, hconcat⟩
  have htext := intercalate_split path.bytes
  rw [hsplit] at htext
  have hne : last ≠ [] := by
    rintro rfl
    cases init with
    | nil =>
      rw [pieces, hsplit] at hlast
      cases hlast
    | cons first init =>
      rw [intercalate_append (by simp) (by simp), List.intercalate_singleton] at htext
      rw [endsInSlash, ← htext, List.getLast?_concat] at hslash
      cases hslash
  have hpieces : pieces path =
      (init.filter (· ≠ [])).map RawText.mk ++ [RawText.mk last] := by
    simp [pieces, hsplit, List.filter_append, hne]
  rw [hpieces, List.getLast?_concat, Option.some.injEq] at hlast
  have hname : name.bytes = last := by rw [← hlast]
  refine ⟨by rwa [hname], init, by rw [hsplit, hname], ?_⟩
  rw [hpieces, List.dropLast_concat]

/-! ## Cutting off the last part -/

/-- A piece with something in it is idle only if it is a dot. -/
theorem isIdle_bytes (hname : name.bytes ≠ []) (hdot : name ≠ dot) :
    isIdle name.bytes = false := by
  have hdot' : name.bytes ≠ dot.bytes := fun heq => hdot (RawText.ext heq)
  simp [isIdle, hname, hdot']

theorem trimIdle_append_idle (ps : List (List UInt8)) :
    trimIdle ps ++ ps.rtakeWhile isIdle = ps := List.rdropWhile_append_rtakeWhile

theorem joined_ne_empty : (joined (first :: ps)).bytes ≠ [] := by
  rw [joined]
  split
  next => decide
  next hroot =>
    intro hempty
    have htext : [slash].intercalate (first :: ps) = [] := hempty
    cases ps with
    | nil =>
      rw [List.intercalate_singleton] at htext
      exact hroot (by rw [htext])
    | cons p ps =>
      rw [List.intercalate_cons_cons] at htext
      simp at htext

theorem directory_ne_empty (path : RawText) : (directory path).bytes ≠ [] := by
  unfold directory
  split
  next dir _ =>
    split
    next => decide
    next hdir => rwa [List.isEmpty_iff] at hdir
  next => decide

/-- A name alone lies in the directory `.`. -/
theorem directory_of_name (hsplit : split path.bytes = [last]) (hne : last ≠ []) :
    directory path = dot := by
  simp [directory, parent?, hsplit, trimIdle, hne]

/-- **The directory of a path** is the piece in front and those behind it, up to the
last in front of the name that is not idle. -/
theorem directory_of_split (hsplit : split path.bytes = first :: (mid ++ [last]))
    (hidle : isIdle last = false) : directory path = joined (first :: trimIdle mid) := by
  have hkept : trimIdle (mid ++ [last]) = mid ++ [last] :=
    List.rdropWhile_concat_neg isIdle mid last (by simp [hidle])
  have hparent : parent? path = some (joined (first :: trimIdle mid)) := by
    rw [parent?, hsplit]
    dsimp only
    split
    next hnil =>
      rw [hkept] at hnil
      simp at hnil
    next => rw [hkept, List.dropLast_concat]
  rw [directory, hparent]
  exact if_neg (by rw [List.isEmpty_iff]; exact joined_ne_empty)

/-- Whether a path starts at the root shows in the piece in front. -/
theorem isAbsolute_of_split (hsplit : split path.bytes = first :: ps) :
    isAbsolute path = true ↔ first = [] ∧ ps ≠ [] := by
  have htext := intercalate_split path.bytes
  have hfirst : slash ∉ first := not_mem_of_mem_split (by rw [hsplit]; exact List.mem_cons_self ..)
  rw [hsplit] at htext
  rw [isAbsolute, ← htext]
  cases first with
  | nil =>
    cases ps with
    | nil => simp
    | cons p ps => simp [List.intercalate_cons_cons]
  | cons c first =>
    have hc : c ≠ slash := fun heq => hfirst (by simp [heq])
    cases ps with
    | nil => simp [hc]
    | cons p ps => simp [List.intercalate_cons_cons, hc]

/-- The text of joined pieces is cut into those pieces again, but for the root. -/
theorem split_joined (hroot : first :: ps ≠ [[]]) (hslash : ∀ p ∈ first :: ps, slash ∉ p) :
    split (joined (first :: ps)).bytes = first :: ps := by
  rw [joined, if_neg hroot]
  exact split_intercalate (List.cons_ne_nil first ps) hslash

theorem pieces_joined (hslash : ∀ p ∈ first :: ps, slash ∉ p) :
    pieces (joined (first :: ps)) =
      ((first :: ps).filter (· ≠ [])).map RawText.mk := by
  by_cases hroot : first :: ps = [[]]
  · rw [hroot]
    decide
  · rw [pieces, split_joined hroot hslash]

theorem isAbsolute_joined (hslash : ∀ p ∈ first :: ps, slash ∉ p) :
    isAbsolute (joined (first :: ps)) = true ↔ first = [] := by
  by_cases hroot : first :: ps = [[]]
  · rw [hroot]
    rw [List.cons.injEq] at hroot
    exact iff_of_true (by decide) hroot.1
  · rw [isAbsolute_of_split (split_joined hroot hslash)]
    refine ⟨And.left, fun hfirst => ⟨hfirst, fun hps => hroot ?_⟩⟩
    rw [hfirst, hps]

/-- **The first ancestor of a directory is the directory itself**, unless that is the
root. -/
theorem ancestors_joined (hslash : ∀ p ∈ first :: trimIdle mid, slash ∉ p) :
    ancestors (joined (first :: trimIdle mid)) = [] ∨
      ∃ outer, ancestors (joined (first :: trimIdle mid)) =
        joined (first :: trimIdle mid) :: outer := by
  by_cases hroot : first :: trimIdle mid = [[]]
  · left
    rw [hroot]
    decide
  · right
    rw [ancestors, split_joined hroot hslash]
    dsimp only
    rcases List.eq_nil_or_concat' (trimIdle mid) with hnil | ⟨outer, piece, hconcat⟩
    · rw [hnil] at hroot ⊢
      have hfirst : first ≠ [] := fun heq => hroot (by rw [heq])
      exact ⟨[], by rw [List.reverse_nil, ancestorsFrom, if_neg hfirst]⟩
    · have hidle : isIdle piece = false := by
        have hlast := List.rdropWhile_last_not isIdle mid
          (by rw [show mid.rdropWhile isIdle = _ from hconcat]; simp)
        simpa [show mid.rdropWhile isIdle = _ from hconcat] using hlast
      refine ⟨ancestorsFrom first outer.reverse, ?_⟩
      rw [hconcat, List.reverse_concat, ancestorsFrom, hidle, if_neg Bool.false_ne_true,
        List.reverse_cons, List.reverse_reverse]

/-- **The directory of a path is a text that the path starts with.** -/
theorem startsWith_joined (hsplit : split path.bytes = first :: (mid ++ [last])) :
    (joined (first :: trimIdle mid)).bytes <+: path.bytes := by
  have hpieces : first :: (mid ++ [last]) =
      (first :: trimIdle mid) ++ (mid.rtakeWhile isIdle ++ [last]) := by
    rw [List.cons_append, ← List.append_assoc, trimIdle_append_idle]
  have htext := intercalate_split path.bytes
  rw [hsplit, hpieces, intercalate_append (by simp) (by simp)] at htext
  rw [← htext, joined]
  split
  next hroot =>
    rw [hroot]
    exact ⟨_, rfl⟩
  next => exact List.prefix_append ..

end Path

namespace FileTree

open DocStore.Path

variable {t : FileTree} {k : Nat} {here d : Location} {xs ys : List RawText} {path name : RawText}
  {dir : Location} {e : Entry}

/-- The system takes a path that is there, holds no NUL and is short enough. -/
theorem checkPath_eq_ok_iff :
    checkPath path = .ok () ↔
      0 ∉ path.bytes ∧ path.bytes ≠ [] ∧ path.size ≤ pathLimit := by
  unfold checkPath
  split
  next hnul => simp [List.contains_iff_mem.1 hnul]
  next hnul =>
    have hnul' : 0 ∉ path.bytes := by rwa [List.contains_iff_mem] at hnul
    split
    next hempty => simp [List.isEmpty_iff.1 hempty]
    next hempty =>
      rw [List.isEmpty_iff] at hempty
      split
      next hlong => simp [hlong]
      next hshort => simp [hnul', hempty, Nat.not_lt.1 hshort]

theorem checkPath_of_startsWith {p : RawText} (hpath : checkPath path = .ok ()) (hp : p.bytes ≠ [])
    (hstarts : p.bytes <+: path.bytes) : checkPath p = .ok () := by
  obtain ⟨rest, hrest⟩ := hstarts
  obtain ⟨hnul, -, hshort⟩ := checkPath_eq_ok_iff.1 hpath
  have hsize : path.size = p.size + rest.length := by
    rw [RawText.size, ← hrest, List.length_append, RawText.size]
  refine checkPath_eq_ok_iff.2 ⟨fun hmem => hnul ?_, hp, by omega⟩
  rw [← hrest]
  exact List.mem_append_left rest hmem

/-! ## Paths from the root -/

/-- **The path from the root for a relative path** is the path behind the home of the
tree. -/
theorem exists_fromRoot_eq (t : FileTree) :
    ∃ front : RawText, (front.bytes = slash :: [slash].intercalate (t.home.map RawText.bytes) ∨
        front.bytes = slash :: [slash].intercalate (t.home.map RawText.bytes) ++ [slash]) ∧
      ∀ path, isAbsolute path = false → t.fromRoot path = front ++ path := by
  obtain ⟨front, hfront, hjoin⟩ :=
    exists_join_eq ⟨slash :: [slash].intercalate (t.home.map RawText.bytes)⟩
  replace hfront := hfront.imp (congrArg RawText.bytes) (congrArg RawText.bytes)
  refine ⟨front, hfront, fun path hrelative => ?_⟩
  unfold fromRoot
  rw [hrelative, if_neg Bool.false_ne_true, hjoin]

/-- The system takes what is behind the home if it takes the path from the root. -/
theorem checkPath_of_fromRoot (hpath : path.bytes ≠ []) (h : checkPath (t.fromRoot path) = .ok ()) :
    checkPath path = .ok () := by
  by_cases habsolute : isAbsolute path = true
  · rwa [fromRoot, if_pos habsolute] at h
  · obtain ⟨front, -, hfront⟩ := t.exists_fromRoot_eq
    rw [hfront path (Bool.not_eq_true _ ▸ habsolute), checkPath_eq_ok_iff] at h
    rw [RawText.bytes_append, List.mem_append, RawText.size_append] at h
    exact checkPath_eq_ok_iff.2 ⟨fun hnul => h.1 (Or.inr hnul), hpath, by omega⟩

/-! ## Walks and their beginnings -/

/-- Steps that stay where they are. -/
theorem locate_dots (hhere : t.get? here = some .directory) (hys : ∀ y ∈ ys, y = dot) :
    t.locate k here ys = .ok (here, some .directory) := by
  induction ys with
  | nil => rw [locate_nil, hhere]
  | cons y rest ih =>
    obtain ⟨rfl, hrest⟩ := List.forall_mem_cons.1 hys
    rw [locate.eq_def]
    simp only [hhere, if_true]
    exact ih hrest

/-- **A walk that goes on leads to a directory first.** -/
theorem exists_locate_of_append (hys : ys ≠ []) (h : t.locate k here (xs ++ ys) = .ok (d, some e)) :
    ∃ d', t.locate k here xs = .ok (d', some .directory) := by
  fun_induction locate t k here xs with
  | case1 k here =>
    by_cases hhere : t.get? here = some .directory
    · exact ⟨here, by rw [hhere]⟩
    · obtain ⟨y, rest, rfl⟩ := List.exists_cons_of_ne_nil hys
      rw [List.nil_append, locate_cons_of_ne hhere] at h
      cases h
  | case2 k here rest hdir ih =>
    rw [List.cons_append, locate.eq_def] at h
    simp only [hdir, if_true] at h
    exact ih h
  | case3 k here rest hdir hdot ih =>
    rw [List.cons_append, locate.eq_def] at h
    simp only [hdir, hdot, if_true, if_false] at h
    exact ih h
  | case8 here step rest hdir hdot hdots hlong there target hlink k ih =>
    rw [List.cons_append, locate.eq_def] at h
    simp only [hdir, hdot, hdots, hlong, if_false] at h
    rw [show t.get? (here ++ [step]) = some (.link target) from hlink] at h
    simp only [dite_eq_ite, ← List.append_assoc] at h ih
    exact ih h
  | case9 k here step rest hdir hdot hdots hlong there v hnolink hv ih =>
    rw [List.cons_append, locate_name hdir ⟨hdot, hdots, Nat.not_lt.1 hlong⟩ hv hnolink] at h
    exact ih h
  | case4 k here step rest hdir hdot hdots hlong =>
    rw [List.cons_append, locate.eq_def] at h
    simp [hdir, hdot, hdots, hlong] at h
  | case5 k here step rest hdir hdot hdots hlong there hnone =>
    rw [List.cons_append, locate.eq_def] at h
    simp only [hdir, hdot, hdots, hlong, if_false] at h
    rw [show t.get? (here ++ [step]) = none from hnone] at h
    simp [hys] at h
  | case6 k here step rest hdir hdot hdots hlong there hnone =>
    rw [List.cons_append, locate.eq_def] at h
    simp only [hdir, hdot, hdots, hlong, if_false] at h
    rw [show t.get? (here ++ [step]) = none from hnone] at h
    simp [hys] at h
  | case7 here step rest hdir hdot hdots hlong there target hlink =>
    rw [List.cons_append, locate.eq_def] at h
    simp only [hdir, hdot, hdots, hlong, if_false] at h
    rw [show t.get? (here ++ [step]) = some (.link target) from hlink] at h
    simp at h
  | case10 k here step rest hne =>
    rw [List.cons_append, locate_cons_of_ne (fun hdir => hne hdir)] at h
    cases h

/-- Steps at the end that stay where they are can be left out. -/
theorem locate_of_append_dots (hys : ∀ y ∈ ys, y = dot)
    (h : t.locate k here (xs ++ ys) = .ok (d, some .directory)) :
    t.locate k here xs = .ok (d, some .directory) := by
  by_cases hnil : ys = []
  · rwa [hnil, List.append_nil] at h
  · obtain ⟨d', hd'⟩ := exists_locate_of_append hnil h
    obtain ⟨k', hk'⟩ := locate_append hd'
    have hsame := (hk' ys).symm.trans h
    rw [locate_dots (get?_of_locate hd') hys] at hsame
    simp only [Except.ok.injEq, Prod.mk.injEq, and_true] at hsame
    rw [hd', hsame]

/-! ## Creating directories that are there -/

/-- **A path leads to a directory if its pieces do**; a slash at the end adds
nothing. -/
theorem resolve_eq_directory_iff :
    t.resolve path = .ok (d, .directory) ↔ checkPath path = .ok () ∧
      t.locate linkLimit (t.start path) (pieces path) = .ok (d, some .directory) := by
  have hdots : ∀ y ∈ if endsInSlash path then [dot] else [], y = dot := by
    split <;> simp
  constructor
  · intro h
    obtain ⟨⟨⟩, haccepted, h⟩ := bind_eq_ok.1 h
    obtain ⟨⟨l, entry⟩, hwalk, h⟩ := bind_eq_ok.1 h
    refine ⟨haccepted, ?_⟩
    cases entry with
    | none => cases h
    | some entry =>
      simp only [pure, Except.pure, Except.ok.injEq, Prod.mk.injEq] at h
      obtain ⟨rfl, rfl⟩ := h
      exact locate_of_append_dots hdots hwalk
  · rintro ⟨haccepted, hwalk⟩
    obtain ⟨k, hk⟩ := locate_append hwalk
    have hsteps : t.locate linkLimit (t.start path) (steps path) = .ok (d, some .directory) := by
      rw [steps, hk, locate_dots (get?_of_locate hwalk) hdots]
    simp [resolve, haccepted, hsteps, bind, Except.bind, pure, Except.pure]

/-- **A name behind a path that leads to a directory** is named in that directory. -/
theorem names_join (h : t.resolve path = .ok (d, .directory)) (hname : name.bytes ≠ [])
    (hnoslash : slash ∉ name.bytes) (hdot : name ≠ dot) (hdots : name ≠ dots)
    (haccepted : checkPath (join path name) = .ok ()) : t.Names (join path name) d name := by
  obtain ⟨hpath, hwalk⟩ := resolve_eq_directory_iff.1 h
  have hstart : t.start (join path name) = t.start path := by
    unfold start
    rw [isAbsolute_join (checkPath_eq_ok_iff.1 hpath).2.1]
  refine ⟨haccepted, ?_, hdot, hdots, ?_⟩
  · rw [pieces_join hname hnoslash, List.getLast?_concat]
  · rw [pieces_join hname hnoslash, List.dropLast_concat, hstart, hwalk]

/-- **A directory that is there cannot be created.** -/
theorem create_of_resolve (h : t.resolve path = .ok (d, .directory)) (e : Entry) :
    t.create path e = .error .alreadyThere := by
  obtain ⟨haccepted, hwalk⟩ := resolve_eq_directory_iff.1 h
  rcases List.eq_nil_or_concat' (pieces path) with hnil | ⟨front, step, hpieces⟩
  · -- the root, or the home of the tree
    rw [hnil] at hwalk
    simp [create, place, haccepted, hnil, hwalk, bind, Except.bind, pure, Except.pure]
  · rw [hpieces] at hwalk
    obtain ⟨d', hfront⟩ := exists_locate_of_append (List.cons_ne_nil step []) hwalk
    by_cases hfixed : step = dot ∨ step = dots
    · simp [create, place, haccepted, hpieces, hfront, hfixed, bind, Except.bind, pure, Except.pure]
    · obtain ⟨hdot, hdots⟩ := not_or.1 hfixed
      obtain ⟨k, hk⟩ := locate_append hfront
      have hlast := (hk [step]).symm.trans hwalk
      rw [locate.eq_def] at hlast
      simp only [get?_of_locate hfront, hdot, hdots, if_false] at hlast
      split at hlast
      next => cases hlast
      next hshort =>
        -- the walk comes to something under that name
        have hthere : ∃ entry, t.get? (d' ++ [step]) = some entry := by
          cases hget : t.get? (d' ++ [step]) with
          | some entry => exact ⟨entry, rfl⟩
          | none =>
            rw [hget] at hlast
            simp at hlast
        obtain ⟨entry, hentry⟩ := hthere
        simp [create, place, haccepted, hpieces, hfront, hdot, hdots, hshort, hentry, bind,
          Except.bind, pure, Except.pure]

/-- **Creating a directory that is there changes nothing**, if the directory is its own
first ancestor or has none. -/
theorem createDirectories_eq_self (h : t.resolve path = .ok (d, .directory))
    (hancestors : ancestors path = [] ∨ ∃ outer, ancestors path = path :: outer) :
    t.createDirectories path = (t, .ok ()) := by
  rcases hancestors with hnone | ⟨outer, houter⟩
  · simp [createDirectories, hnone, missing, makeDirectories]
  · have hmake : t.makeDirectory path = .error .alreadyThere := by
      rw [makeDirectory, create_of_resolve h]
      rfl
    have hkind : IoError.alreadyThere.kind = .alreadyExists := by decide
    have hdirectory : t.isDirectory path = true := by rw [isDirectory, h]
    have hmissing : t.missing (path :: outer) = (t, .ok []) := by
      rw [missing, hmake]
      simp [hkind, hdirectory]
    simp [createDirectories, houter, hmissing, makeDirectories]

namespace Names

variable (h : t.Names path dir name) (hslash : endsInSlash path = false)
include h hslash

/-- **The directory of a path leads to the directory in which the path names an
entry**, and its first ancestor is itself. -/
theorem resolve_directory :
    t.resolve (directory path) = .ok (dir, .directory) ∧
      (ancestors (directory path) = [] ∨
        ∃ outer, ancestors (directory path) = directory path :: outer) := by
  obtain ⟨hname, init, hsplit, hfront⟩ := split_eq_concat hslash h.last
  have hwalk := h.walk
  rw [hfront] at hwalk
  cases init with
  | nil =>
    -- a name alone, in the home of the tree
    have hrelative : ¬ isAbsolute path = true := by
      rw [isAbsolute_of_split hsplit]
      simp
    have hstart : t.start dot = t.start path := by
      rw [start, start, if_neg hrelative, if_neg (by decide)]
    have hhome : t.get? (t.start path) = some .directory ∧ t.start path = dir := by
      simpa [locate_nil, and_comm] using hwalk
    rw [directory_of_name hsplit hname]
    refine ⟨resolve_eq_directory_iff.2 ⟨by decide, ?_⟩, Or.inr ⟨[], by decide⟩⟩
    rw [hstart, show pieces dot = [dot] by decide, locate_dots hhome.1 (by simp), hhome.2]
  | cons first mid =>
    have hidle := isIdle_bytes hname h.ne_dot
    have hnoslash : ∀ p ∈ first :: trimIdle mid, slash ∉ p := by
      intro p hp
      have hmem : p ∈ first :: (mid ++ [name.bytes]) := by
        rcases List.mem_cons.1 hp with rfl | hp
        · exact List.mem_cons_self ..
        · have hkept := List.rdropWhile_prefix isIdle mid
          have hmid : p ∈ mid := hkept.subset hp
          exact List.mem_cons_of_mem first (List.mem_append_left _ hmid)
      exact not_mem_of_mem_split (by rw [hsplit]; exact hmem)
    rw [directory_of_split hsplit hidle]
    refine ⟨resolve_eq_directory_iff.2 ⟨?_, ?_⟩, ancestors_joined hnoslash⟩
    · exact checkPath_of_startsWith h.accepted joined_ne_empty (startsWith_joined hsplit)
    · have hstart : t.start (joined (first :: trimIdle mid)) = t.start path := by
        have habsolute : isAbsolute path = true ↔ first = [] := by
          rw [isAbsolute_of_split hsplit]
          simp
        simp only [start, isAbsolute_joined hnoslash, habsolute]
      have hcut : ∀ y ∈ ((mid.rtakeWhile isIdle).filter (· ≠ [])).map RawText.mk, y = dot := by
        intro y hy
        obtain ⟨piece, hpiece, rfl⟩ := List.mem_map.1 hy
        obtain ⟨hmem, hne⟩ := List.mem_filter.1 hpiece
        have hcut := List.mem_rtakeWhile_imp hmem
        simp only [isIdle, Bool.or_eq_true, beq_iff_eq] at hcut
        rcases hcut with rfl | rfl
        · simp at hne
        · decide
      rw [hstart, pieces_joined hnoslash]
      refine locate_of_append_dots hcut ?_
      rw [← List.map_append, ← List.filter_append, List.cons_append, trimIdle_append_idle]
      exact hwalk

/-- **Where a path names an entry its directory is there**, and creating it changes
nothing. -/
theorem createDirectories_eq : t.createDirectories (directory path) = (t, .ok ()) := by
  obtain ⟨hresolve, hancestors⟩ := h.resolve_directory hslash
  exact createDirectories_eq_self hresolve hancestors

end Names

end FileTree

end DocStore
