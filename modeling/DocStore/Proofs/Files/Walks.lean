import DocStore.Files.Walk
import DocStore.Proofs.Files.Trees
/-!
# Walks through changing trees

A walk to a directory reads directories and links only. So it leads to the
same directory in every tree that has them too, whatever files were added
meanwhile. Where a file has taken the place of a link, the walk is the same as
long as it does not follow that link, and else fails at the file
(`locate_of_keeps`); `linksFollowed` names the links it follows.
-/

namespace DocStore

namespace FileTree

variable {t t' : FileTree} {k : Nat} {here d : Location} {xs ys : List RawText} {e : Entry}

/-- **The links that a walk follows**, by their places. -/
def linksFollowed (t : FileTree) (links : Nat) (here : Location) (steps : List RawText) :
    List Location :=
  match steps with
  | [] => []
  | step :: rest =>
    match t.get? here with
    | some .directory =>
      if step = Path.dot then t.linksFollowed links here rest
      else if step = Path.dots then t.linksFollowed links here.dropLast rest
      else
        let there := here ++ [step]
        match t.get? there with
        | none => []
        | some (.link target) =>
          match links with
          | 0 => []
          | links + 1 =>
            there :: t.linksFollowed links (if Path.isAbsolute target then [] else here)
              (Path.steps target ++ rest)
        | some _ => t.linksFollowed links there rest
    | _ => []
termination_by (links, steps.length)

/-- A step that is a name, and not too long for one. -/
structure IsName (step : RawText) : Prop where
  ne_dot : step ≠ Path.dot
  ne_dots : step ≠ Path.dots
  short : step.size ≤ nameLimit

theorem locate_nil : t.locate k here [] = .ok (here, t.get? here) := by
  rw [locate]

/-- A walk goes on from directories only. -/
theorem locate_cons_of_ne (h : t.get? here ≠ some .directory) (step : RawText) :
    t.locate k here (step :: xs) = .error .notDirectory := by
  rw [locate.eq_def]
  split
  · simp_all
  · split
    · simp_all
    · simp_all

/-- **A name that leads to no link** leads to what has it. -/
theorem locate_name {step : RawText} (hhere : t.get? here = some .directory) (hstep : IsName step)
    (he : t.get? (here ++ [step]) = some e) (hlink : ∀ target, e ≠ .link target) :
    t.locate k here (step :: xs) = t.locate k (here ++ [step]) xs := by
  rw [locate.eq_def]
  simp only [hhere, if_neg hstep.ne_dot, if_neg hstep.ne_dots, if_neg (Nat.not_lt.2 hstep.short),
    he]

/-! ## A walk and what comes behind it -/

/-- **A walk in two parts**: behind what the first part leads to, the walk goes
on with the links that are left. -/
theorem locate_append (h : t.locate k here xs = .ok (d, some e)) :
    ∃ k', ∀ ys, t.locate k here (xs ++ ys) = t.locate k' d ys := by
  fun_induction locate t k here xs with
  | case1 k here =>
    simp only [Except.ok.injEq, Prod.mk.injEq] at h
    exact ⟨k, fun ys => by rw [List.nil_append, h.1]⟩
  | case2 k here rest hdir ih =>
    obtain ⟨k', hk'⟩ := ih h
    refine ⟨k', fun ys => ?_⟩
    rw [List.cons_append, locate.eq_def]
    simp [hdir, hk' ys]
  | case3 k here rest hdir hdot ih =>
    obtain ⟨k', hk'⟩ := ih h
    refine ⟨k', fun ys => ?_⟩
    rw [List.cons_append, locate.eq_def]
    simp [hdir, hdot, hk' ys]
  | case8 here step rest hdir hdot hdots hlong there target hlink k ih =>
    -- a link: its target comes in front of the rest
    simp only [dite_eq_ite] at ih
    obtain ⟨k', hk'⟩ := ih h
    refine ⟨k', fun ys => ?_⟩
    rw [List.cons_append, locate.eq_def]
    simp only [hdir, hdot, hdots, hlong, if_false]
    rw [show t.get? (here ++ [step]) = some (.link target) from hlink]
    simpa using hk' ys
  | case9 k here step rest hdir hdot hdots hlong there v hnolink hv ih =>
    obtain ⟨k', hk'⟩ := ih h
    refine ⟨k', fun ys => ?_⟩
    rw [List.cons_append, locate_name hdir ⟨hdot, hdots, Nat.not_lt.1 hlong⟩ hv hnolink, hk' ys]
  | case4 | case5 | case6 | case7 | case10 => simp at h

/-- What a walk leads to is what lies there. -/
theorem get?_of_locate {o : Option Entry} (h : t.locate k here xs = .ok (d, o)) :
    t.get? d = o := by
  fun_induction locate t k here xs with
  | case1 =>
    simp only [Except.ok.injEq, Prod.mk.injEq] at h
    rw [← h.1, h.2]
  | case2 _ _ _ _ ih => exact ih h
  | case3 _ _ _ _ _ ih => exact ih h
  | case5 _ _ _ _ _ _ _ _ _ hnone =>
    simp only [Except.ok.injEq, Prod.mk.injEq] at h
    rw [← h.1, ← h.2]
    exact hnone
  | case8 _ _ _ _ _ _ _ _ _ _ _ ih =>
    simp only [dite_eq_ite] at ih
    exact ih h
  | case9 _ _ _ _ _ _ _ _ _ _ _ _ ih => exact ih h
  | case4 | case6 | case7 | case10 => simp at h

/-! ## The same walk in another tree -/

/-- Only links are followed. -/
theorem exists_link_of_mem_linksFollowed {l : Location} (h : l ∈ t.linksFollowed k here xs) :
    ∃ target, t.get? l = some (.link target) := by
  fun_induction linksFollowed t k here xs with
  | case2 _ _ _ _ ih => exact ih h
  | case3 _ _ _ _ _ ih => exact ih h
  | case6 _ _ _ _ _ _ there target hlink _ ih =>
    simp only [dite_eq_ite] at ih
    rcases List.mem_cons.1 h with rfl | h
    · exact ⟨target, hlink⟩
    · exact ih h
  | case7 _ _ _ _ _ _ _ _ _ _ _ ih => exact ih h
  | case1 | case4 | case5 | case8 => simp at h

/-- **The second tree leads where the first does, as far as it leads**: every
directory is kept, and every link, unless a file has taken its place. -/
structure Keeps (t t' : FileTree) : Prop where
  home : t'.home = t.home
  directory : ∀ l, t.get? l = some .directory → t'.get? l = some .directory
  link : ∀ l target, t.get? l = some (.link target) →
    t'.get? l = some (.link target) ∨ ∃ mode content, t'.get? l = some (.file mode content)

theorem Grows.keeps (h : t.Grows t') : t.Keeps t' :=
  ⟨h.home, fun _ => h.get?_eq_some, fun _ _ hlink => Or.inl (h.get?_eq_some hlink)⟩

/-- **A walk to a directory, in a tree that keeps its directories and links.**
Either it follows no link that has become a file, and leads to the same
directory, or it ends at such a file and nothing lies behind. -/
theorem locate_of_keeps (hkeeps : t.Keeps t') (h : t.locate k here xs = .ok (d, some .directory)) :
    (t'.locate k here xs = .ok (d, some .directory) ∧
      ∀ l ∈ t.linksFollowed k here xs, t'.get? l = t.get? l) ∨
    ((∀ ys, ys ≠ [] → t'.locate k here (xs ++ ys) = .error .notDirectory) ∧
      ∃ l ∈ t.linksFollowed k here xs, ∃ mode content, t'.get? l = some (.file mode content)) := by
  fun_induction locate t k here xs with
  | case1 k here =>
    simp only [Except.ok.injEq, Prod.mk.injEq] at h
    left
    rw [locate_nil, hkeeps.directory here h.2, h.1]
    exact ⟨rfl, by simp [linksFollowed]⟩
  | case2 k here rest hdir ih =>
    have hdir' := hkeeps.directory here hdir
    rw [linksFollowed.eq_def]
    simp only [List.cons_append, locate.eq_def t' k here (_ :: _), hdir, hdir', if_true]
    exact ih h
  | case3 k here rest hdir hdot ih =>
    have hdir' := hkeeps.directory here hdir
    rw [linksFollowed.eq_def]
    simp only [List.cons_append, locate.eq_def t' k here (_ :: _), hdir, hdir', if_true, hdot,
      if_false]
    exact ih h
  | case8 here step rest hdir hdot hdots hlong there target hlink k ih =>
    have hlink : t.get? (here ++ [step]) = some (.link target) := hlink
    have hdir' := hkeeps.directory here hdir
    simp only [dite_eq_ite] at ih
    rw [linksFollowed.eq_def]
    simp only [hdir, hdot, hdots, if_false, hlink]
    rcases hkeeps.link _ _ hlink with hlink' | ⟨mode, content, hfile⟩
    · -- the link is still there, and the walk goes on along its target
      simp only [List.cons_append, locate.eq_def t' (k + 1) here (_ :: _), hdir', hdot, hdots,
        hlong, if_false, hlink', ← List.append_assoc]
      rcases ih h with ⟨hsame, hfollowed⟩ | ⟨hfail, l, hl, hfile⟩
      · exact Or.inl ⟨hsame, List.forall_mem_cons.2 ⟨by rw [hlink', hlink], hfollowed⟩⟩
      · exact Or.inr ⟨hfail, l, List.mem_cons_of_mem _ hl, hfile⟩
    · -- the walk comes to the file and cannot go on
      refine Or.inr ⟨fun ys hys => ?_, _, List.mem_cons_self .., mode, content, hfile⟩
      obtain ⟨y, zs, hcons⟩ := List.exists_cons_of_ne_nil
        (List.append_ne_nil_of_right_ne_nil rest hys)
      rw [List.cons_append, hcons, locate_name hdir' ⟨hdot, hdots, Nat.not_lt.1 hlong⟩ hfile
        (fun _ => by simp)]
      exact locate_cons_of_ne (by simp [hfile]) y
  | case9 k here step rest hdir hdot hdots hlong there v hnolink hv ih =>
    have hv : t.get? (here ++ [step]) = some v := hv
    have hdir' := hkeeps.directory here hdir
    have hstep : IsName step := ⟨hdot, hdots, Nat.not_lt.1 hlong⟩
    cases v with
    | link target => exact absurd rfl (hnolink target)
    | directory =>
      rw [linksFollowed.eq_def]
      simp only [List.cons_append, hdir, hdot, hdots, if_false, hv]
      rw [locate_name hdir' hstep (hkeeps.directory _ hv) (fun _ => by simp)]
      refine (ih h).imp_right fun hfail => ⟨fun ys hys => ?_, hfail.2⟩
      rw [locate_name hdir' hstep (hkeeps.directory _ hv) (fun _ => by simp)]
      exact hfail.1 ys hys
    | file mode content =>
      -- a walk that comes to a file does not lead to a directory
      cases rest with
      | nil =>
        rw [locate_nil, Except.ok.injEq, Prod.mk.injEq, show t.get? there = _ from hv] at h
        simp at h
      | cons s rest =>
        rw [locate_cons_of_ne (by rw [show t.get? there = _ from hv]; simp)] at h
        cases h
  | case4 | case5 | case6 | case7 | case10 => simp at h

/-- **A walk to a directory follows the same links** in a tree that has more
directories. -/
theorem linksFollowed_of_grows (hgrows : t.Grows t')
    (h : t.locate k here xs = .ok (d, some .directory)) :
    t'.linksFollowed k here xs = t.linksFollowed k here xs := by
  fun_induction locate t k here xs with
  | case1 k here => rw [linksFollowed, linksFollowed]
  | case2 k here rest hdir ih =>
    have hdir' := hgrows.get?_eq_some hdir
    rw [linksFollowed.eq_def, linksFollowed.eq_def t]
    simp only [hdir, hdir', if_true]
    exact ih h
  | case3 k here rest hdir hdot ih =>
    have hdir' := hgrows.get?_eq_some hdir
    rw [linksFollowed.eq_def, linksFollowed.eq_def t]
    simp only [hdir, hdir', if_true, hdot, if_false]
    exact ih h
  | case8 here step rest hdir hdot hdots hlong there target hlink k ih =>
    have hlink : t.get? (here ++ [step]) = some (.link target) := hlink
    have hdir' := hgrows.get?_eq_some hdir
    have hlink' := hgrows.get?_eq_some hlink
    simp only [dite_eq_ite] at ih
    rw [linksFollowed.eq_def, linksFollowed.eq_def t]
    simp only [hdir, hdir', hdot, hdots, if_false, hlink, hlink']
    rw [ih h]
  | case9 k here step rest hdir hdot hdots hlong there v hnolink hv ih =>
    have hv : t.get? (here ++ [step]) = some v := hv
    have hdir' := hgrows.get?_eq_some hdir
    have hv' := hgrows.get?_eq_some hv
    rw [linksFollowed.eq_def, linksFollowed.eq_def t]
    cases v with
    | link target => exact absurd rfl (hnolink target)
    | directory | file _ _ =>
      simp only [hdir, hdir', hdot, hdots, if_false, hv, hv']
      exact ih h
  | case4 | case5 | case6 | case7 | case10 => simp at h

end FileTree

end DocStore
