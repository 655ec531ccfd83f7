import DocStore.Proofs.Files.Relative
/-!
# Trees without links

In a tree of directories and files a path made of names leads along the places that have
those names, and nowhere else. So creating the directories on it succeeds if no file is in the
way, and makes exactly those that are missing (`exists_createDirectories`).
-/

namespace DocStore

namespace FileTree

open DocStore.Path

variable {t t' u w : FileTree} {k : Nat} {here d l : Location} {names : List RawText}
  {name path : RawText}

/-! ## What lies on the way -/

/-- **All along a way** something holds of what lies there, from where the way starts to
where it ends. -/
def Along (t : FileTree) (p : Option Entry → Prop) (here : Location)
    (names : List RawText) : Prop :=
  ∀ front, front <+: names → p (t.get? (here ++ front))

theorem along_nil {p : Option Entry → Prop} : t.Along p here [] ↔ p (t.get? here) := by
  unfold Along
  simp

theorem along_cons {p : Option Entry → Prop} {c : RawText} {rest : List RawText} :
    t.Along p here (c :: rest) ↔ p (t.get? here) ∧ t.Along p (here ++ [c]) rest := by
  constructor
  · intro h
    refine ⟨by simpa using h [] List.nil_prefix, fun front hfront => ?_⟩
    rw [← List.append_cons]
    exact h (c :: front) (List.cons_prefix_cons.2 ⟨rfl, hfront⟩)
  · rintro ⟨hhere, hrest⟩ front hfront
    rcases List.prefix_cons_iff.1 hfront with rfl | ⟨front, rfl, hfront'⟩
    · rwa [List.append_nil]
    · rw [List.append_cons]
      exact hrest front hfront'

/-- A way without its last name, and where the last name leads. -/
theorem along_concat {p : Option Entry → Prop} {init : List RawText} :
    t.Along p here (init ++ [name]) ↔
      t.Along p here init ∧ p (t.get? (here ++ (init ++ [name]))) := by
  unfold Along
  simp only [List.prefix_concat_iff]
  constructor
  · intro h
    exact ⟨fun front hfront => h front (Or.inr hfront), h _ (Or.inl rfl)⟩
  · rintro ⟨hinit, hlast⟩ front (rfl | hfront)
    · exact hlast
    · exact hinit front hfront

theorem Along.last {p : Option Entry → Prop} (h : t.Along p here names) :
    p (t.get? (here ++ names)) := h names (List.prefix_refl names)

/-- **A tree of directories and files**: all that is there lies in a directory, and nothing
is a link. The home is one of the directories, with a path that the system takes. -/
structure Plain (t : FileTree) : Prop where
  home : t.get? t.home = some .directory
  inside : ∀ l name, t.get? (l ++ [name]) ≠ none → t.get? l = some .directory
  noLink : ∀ l target, t.get? l ≠ some (.link target)
  noNul : ∀ name ∈ t.home, 0 ∉ name.bytes

/-- **All on the way to a directory is a directory.** -/
theorem Plain.along (h : t.Plain) (hd : t.get? (here ++ names) = some .directory) :
    t.Along (· = some .directory) here names := by
  induction names using List.reverseRecOn with
  | nil => exact along_nil.2 (by rwa [List.append_nil] at hd)
  | append_singleton init name ih =>
    refine along_concat.2 ⟨ih (h.inside _ name ?_), hd⟩
    rw [List.append_assoc, hd]
    exact Option.some_ne_none _

/-! ## Walks without links -/

/-- **A walk to what is not there** ends in front of it or at it, if nothing is in the way. -/
theorem locate_of_missing (hnames : ∀ c ∈ names, IsName c)
    (hclear : t.Along (fun e => e = none ∨ e = some .directory) here names)
    (hhere : t.get? here = some .directory) (hmissing : t.get? (here ++ names) = none) :
    t.locate k here names = .ok (here ++ names, none) ∨
      t.locate k here names = .error .notFound := by
  induction names generalizing here with
  | nil =>
    rw [List.append_nil, hhere] at hmissing
    cases hmissing
  | cons c rest ih =>
    obtain ⟨hc, hrest⟩ := List.forall_mem_cons.1 hnames
    obtain ⟨-, hclear⟩ := along_cons.1 hclear
    have hthere := hclear [] List.nil_prefix
    rw [List.append_nil] at hthere
    rcases hthere with hnone | hdirectory
    · rw [locate.eq_def]
      simp only [hhere, if_neg hc.ne_dot, if_neg hc.ne_dots, if_neg (Nat.not_lt.2 hc.short), hnone]
      cases rest with
      | nil => exact Or.inl rfl
      | cons c' rest => exact Or.inr rfl
    · rw [locate_name hhere hc hdirectory (fun _ => by simp), List.append_cons here c rest]
      exact ih hrest hclear hdirectory (by rwa [← List.append_cons])

section

variable (hnoLink : ∀ l target, t.get? l ≠ some (.link target))
include hnoLink

/-- **A walk without links leads where its names say**, if there are directories all the
way. -/
theorem locate_eq_ok_iff (hnames : ∀ c ∈ names, IsName c) :
    t.locate k here names = .ok (d, some .directory) ↔
      d = here ++ names ∧ t.Along (· = some .directory) here names := by
  induction names generalizing here with
  | nil =>
    rw [locate_nil, along_nil]
    simp [eq_comm]
  | cons c rest ih =>
    obtain ⟨hc, hrest⟩ := List.forall_mem_cons.1 hnames
    by_cases hhere : t.get? here = some .directory
    · cases hthere : t.get? (here ++ [c]) with
      | none =>
        refine iff_of_false ?_ fun h => ?_
        · rw [locate.eq_def]
          simp only [hhere, if_neg hc.ne_dot, if_neg hc.ne_dots, if_neg (Nat.not_lt.2 hc.short),
            hthere]
          split
          · simp
          · simp
        · have hdirectory := h.2 [c] (by simp)
          rw [hthere] at hdirectory
          cases hdirectory
      | some e =>
        have he : ∀ target, e ≠ .link target := fun target heq => hnoLink _ target (heq ▸ hthere)
        rw [locate_name hhere hc hthere he, ih hrest, along_cons, ← List.append_cons]
        simp only [hhere, true_and]
    · rw [locate_cons_of_ne hhere]
      exact iff_of_false (by simp) fun h => hhere (along_cons.1 h.2).1

/-- **A path made of names names an entry** if there are directories all the way. -/
theorem names_relative_iff {dir : Location} {last : RawText}
    (hnames : ∀ c ∈ names ++ [name], IsOrdinary c)
    (hshort : (relative (names ++ [name])).size ≤ pathLimit) :
    t.Names (relative (names ++ [name])) dir last ↔
      dir = t.home ++ names ∧ last = name ∧ t.Along (· = some .directory) t.home names := by
  have haccepted := checkPath_relative (by simp) hnames hshort
  have hpieces := pieces_relative hnames
  have hstart := start_relative (t := t) hnames
  have hwalk : t.locate linkLimit t.home names = .ok (dir, some .directory) ↔
      dir = t.home ++ names ∧ t.Along (· = some .directory) t.home names :=
    locate_eq_ok_iff hnoLink fun c hc => (IsOrdinary.front hnames c hc).toIsName
  constructor
  · intro h
    have hlast := h.last
    have hdir := h.walk
    rw [hpieces, List.getLast?_concat, Option.some.injEq] at hlast
    rw [hpieces, List.dropLast_concat, hstart, hwalk] at hdir
    exact ⟨hdir.1, hlast.symm, hdir.2⟩
  · rintro ⟨hdir, rfl, hdirectories⟩
    have hlast := IsOrdinary.last hnames
    refine ⟨haccepted, ?_, hlast.ne_dot, hlast.ne_dots, ?_⟩
    · rw [hpieces, List.getLast?_concat]
    · rw [hpieces, List.dropLast_concat, hstart, hwalk]
      exact ⟨hdir, hdirectories⟩

end

/-! ## Creating directories -/

/-- **Where only directories were made**: those along the way that were missing. -/
structure Made (t t' : FileTree) (names : List RawText) : Prop where
  home : t'.home = t.home
  along : t'.Along (· = some .directory) t.home names
  others : ∀ l, (∀ front, front <+: names → l ≠ t.home ++ front) → t'.get? l = t.get? l

/-- A way is never as long as a way behind its end. -/
theorem append_ne_concat {front : List RawText} (h : front <+: names) (name : RawText) :
    here ++ front ≠ here ++ (names ++ [name]) := by
  intro heq
  have hlength := h.length_le
  rw [List.append_cancel_left heq, List.length_append, List.length_singleton] at hlength
  omega

/-- Nothing is made where all is there. -/
theorem Made.refl (h : t.Along (· = some .directory) t.home names) : t.Made t names :=
  ⟨rfl, h, fun _ _ => rfl⟩

/-- One more directory is made at the end of the way. -/
theorem Made.concat (h : t.Made u names) (name : RawText) :
    t.Made (u.put (t.home ++ (names ++ [name])) .directory) (names ++ [name]) := by
  refine ⟨h.home, along_concat.2 ⟨fun front hfront => ?_, get?_put_self (by simp)⟩, fun l hl => ?_⟩
  · rw [get?_put_of_ne (append_ne_concat hfront name)]
    exact h.along front hfront
  · rw [get?_put_of_ne (hl _ (List.prefix_refl _))]
    exact h.others l fun front hfront => hl front (hfront.trans (List.prefix_append ..))

theorem makeDirectories_append (t : FileTree) (ps qs : List RawText) :
    t.makeDirectories (ps ++ qs) =
      match t.makeDirectories ps with
      | (u, .ok ()) => u.makeDirectories qs
      | (u, .error e) => (u, .error e) := by
  induction ps generalizing t with
  | nil => rfl
  | cons p rest ih =>
    rw [List.cons_append, makeDirectories, makeDirectories]
    cases t.makeDirectory p with
    | ok u => exact ih u
    | error e =>
      dsimp only
      split
      · exact ih t
      · rfl

section

variable {outer : List RawText}

/-- A directory is made at once where the one it lies in is there. -/
theorem createDirectories_of_make (hancestors : ancestors path = path :: outer)
    (hmake : t.makeDirectory path = .ok w) : t.createDirectories path = (w, .ok ()) := by
  unfold createDirectories
  rw [hancestors, missing, hmake]
  rfl

/-- **A directory is made behind those that lead to it.** -/
theorem createDirectories_of_missing {parent : RawText}
    (hancestors : ancestors path = path :: ancestors parent)
    (hmissing : t.makeDirectory path = .error .notFound)
    (hparent : t.createDirectories parent = (u, .ok ())) (hmake : u.makeDirectory path = .ok w) :
    t.createDirectories path = (w, .ok ()) := by
  have hkind : IoError.notFound.kind = .notFound := by decide
  unfold createDirectories at hparent ⊢
  rw [hancestors, missing, hmissing]
  dsimp only
  rw [if_pos hkind]
  cases hrest : t.missing (ancestors parent) with
  | mk v outcome =>
    cases outcome with
    | error e =>
      rw [hrest] at hparent
      cases hparent
    | ok ps =>
      rw [hrest] at hparent
      dsimp only at hparent ⊢
      rw [List.reverse_cons, makeDirectories_append, hparent]
      dsimp only
      rw [makeDirectories, hmake]
      rfl

end

/-- What lies behind the end of the way is not touched. -/
theorem Made.behind (h : t.Made u names) (name : RawText) :
    u.get? (t.home ++ (names ++ [name])) = t.get? (t.home ++ (names ++ [name])) :=
  h.others _ fun _ hfront => (append_ne_concat hfront name).symm

section

variable (hnames : ∀ c ∈ names ++ [name], IsOrdinary c)
  (hshort : (relative (names ++ [name])).size ≤ pathLimit)
include hnames hshort

/-- A directory can be made at the end of a way that is there. -/
theorem makeDirectory_relative (hnoLink : ∀ l target, t.get? l ≠ some (.link target))
    (halong : t.Along (· = some .directory) t.home names)
    (hfree : t.get? (t.home ++ (names ++ [name])) = none) :
    t.makeDirectory (relative (names ++ [name])) =
      .ok (t.put (t.home ++ (names ++ [name])) .directory) := by
  have hentry := (names_relative_iff hnoLink hnames hshort).2 ⟨rfl, rfl, halong⟩
  have hname := IsOrdinary.last hnames
  rw [← List.append_assoc] at hfree ⊢
  unfold makeDirectory
  rw [create_eq hentry hname.short hfree]
  rfl

/-- A directory cannot be made where the one it would lie in is missing. -/
theorem makeDirectory_of_missing (hhome : t.get? t.home = some .directory)
    (hclear : t.Along (fun e => e = none ∨ e = some .directory) t.home names)
    (hmissing : t.get? (t.home ++ names) = none) :
    t.makeDirectory (relative (names ++ [name])) = .error .notFound := by
  have haccepted := checkPath_relative (by simp) hnames hshort
  have hplace : t.place (relative (names ++ [name])) = .error .notFound := by
    rcases locate_of_missing (k := linkLimit)
      (fun c hc => (IsOrdinary.front hnames c hc).toIsName) hclear hhome hmissing
      with hwalk | hwalk
    · simp [place, haccepted, pieces_relative hnames, start_relative hnames, hwalk, bind,
        Except.bind]
    · simp [place, haccepted, pieces_relative hnames, start_relative hnames, hwalk, bind,
        Except.bind]
  simp [makeDirectory, create, hplace, bind, Except.bind]

end

/-- Creating a directory that is there changes nothing. -/
theorem createDirectories_of_directory (hplain : t.Plain) (hnames : ∀ c ∈ names, IsOrdinary c)
    (hshort : (relative names).size ≤ pathLimit)
    (hthere : t.get? (t.home ++ names) = some .directory) :
    t.createDirectories (relative names) = (t, .ok ()) := by
  rcases List.eq_nil_or_concat' names with rfl | ⟨init, name, rfl⟩
  · rfl
  · have haccepted := checkPath_relative (by simp) hnames hshort
    refine createDirectories_eq_self (d := t.home ++ (init ++ [name])) ?_
      (Or.inr ⟨_, ancestors_relative hnames⟩)
    refine resolve_eq_directory_iff.2 ⟨haccepted, ?_⟩
    rw [pieces_relative hnames, start_relative hnames,
      locate_eq_ok_iff hplain.noLink fun c hc => (hnames c hc).toIsName]
    exact ⟨rfl, hplain.along hthere⟩

/-- **Creating a directory with all that lead to it** succeeds in a tree without links if
no file is in the way, and makes those that are missing. -/
theorem exists_createDirectories (hplain : t.Plain) (hnames : ∀ c ∈ names, IsOrdinary c)
    (hshort : (relative names).size ≤ pathLimit)
    (hclear : t.Along (fun e => e = none ∨ e = some .directory) t.home names) :
    ∃ u, t.createDirectories (relative names) = (u, .ok ()) ∧ t.Made u names := by
  induction names using List.reverseRecOn with
  | nil => exact ⟨t, rfl, .refl (along_nil.2 hplain.home)⟩
  | append_singleton init name ih =>
    have hfront := IsOrdinary.front hnames
    have hshort' := Nat.le_trans (length_relative_le init name) hshort
    have hancestors := ancestors_relative hnames
    obtain ⟨hclear, hnone | hthere⟩ := along_concat.1 hclear
    · obtain ⟨u, hcreate, hmade⟩ := ih hfront hshort' hclear
      have hgrows := t.createDirectories_grows (relative init)
      rw [hcreate] at hgrows
      have hmake : u.makeDirectory (relative (init ++ [name])) =
          .ok (u.put (t.home ++ (init ++ [name])) .directory) := by
        rw [← hmade.home]
        refine makeDirectory_relative hnames hshort (hgrows.noLink hplain.noLink) ?_ ?_
        · rw [hmade.home]
          exact hmade.along
        · rw [hmade.home, hmade.behind, hnone]
      refine ⟨_, ?_, hmade.concat name⟩
      rcases hclear.last with hmissing | hparent
      · have hfail := makeDirectory_of_missing hnames hshort hplain.home hclear hmissing
        exact createDirectories_of_missing hancestors hfail hcreate hmake
      · -- the directory that it lies in was there, so nothing has been made yet
        rw [createDirectories_of_directory hplain hfront hshort' hparent] at hcreate
        obtain rfl : t = u := congrArg Prod.fst hcreate
        exact createDirectories_of_make hancestors hmake
    · exact ⟨t, createDirectories_of_directory hplain hnames hshort hthere,
        .refl (hplain.along hthere)⟩

end FileTree

end DocStore
