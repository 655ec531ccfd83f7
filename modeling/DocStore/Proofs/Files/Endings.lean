import DocStore.Proofs.Files.Entries
import Mathlib.Logic.Relation
/-!
# Where paths lead

A walk goes one step at a time, as long as it can (`Goes`), and comes to one of a few
endings (`Ends`): it is at the end of its steps, the next name is missing, what it would go
on from is no directory, it may follow no more links, or a name is too long. Every path
leads to one ending and no other, and that is what resolving the path gives
(`leadsTo_iff`).
-/

namespace DocStore

namespace FileTree

open Relation (ReflTransGen)

/-- **A walk on its way**: how many more links it may follow, where it is, and the steps
that lie ahead. -/
structure Walk where
  links : Nat
  here : Location
  ahead : List RawText

/-- **One step of a walk.** A link puts its target in the place of its name. -/
inductive Goes (t : FileTree) : Walk → Walk → Prop
  | stay {k : Nat} {here : Location} {rest : List RawText}
      (hhere : t.get? here = some .directory) :
      Goes t ⟨k, here, Path.dot :: rest⟩ ⟨k, here, rest⟩
  | back {k : Nat} {here : Location} {rest : List RawText}
      (hhere : t.get? here = some .directory) :
      Goes t ⟨k, here, Path.dots :: rest⟩ ⟨k, here.dropLast, rest⟩
  | into {k : Nat} {here : Location} {step : RawText} {rest : List RawText} {e : Entry}
      (hhere : t.get? here = some .directory) (hstep : IsName step)
      (hthere : t.get? (here ++ [step]) = some e) (hlink : ∀ target, e ≠ .link target) :
      Goes t ⟨k, here, step :: rest⟩ ⟨k, here ++ [step], rest⟩
  | along {k : Nat} {here : Location} {step target : RawText} {rest : List RawText}
      (hhere : t.get? here = some .directory) (hstep : IsName step)
      (hthere : t.get? (here ++ [step]) = some (.link target)) :
      Goes t ⟨k + 1, here, step :: rest⟩
        ⟨k, if Path.isAbsolute target then [] else here, Path.steps target ++ rest⟩

/-- **What a path may come to.** -/
inductive Ending where
  | entry (l : Location) (e : Entry)
  | missing
  | notDirectory
  | tooManyLinks
  | tooLong
  | invalid

/-- **Where a walk cannot go on**, and why. -/
inductive Ends (t : FileTree) : Walk → Ending → Prop
  | arrived {k : Nat} {here : Location} {e : Entry} (hhere : t.get? here = some e) :
      Ends t ⟨k, here, []⟩ (.entry here e)
  | nowhere {k : Nat} {here : Location} (hhere : t.get? here = none) :
      Ends t ⟨k, here, []⟩ .missing
  | missing {k : Nat} {here : Location} {step : RawText} {rest : List RawText}
      (hhere : t.get? here = some .directory) (hstep : IsName step)
      (hthere : t.get? (here ++ [step]) = none) : Ends t ⟨k, here, step :: rest⟩ .missing
  | notDirectory {k : Nat} {here : Location} {step : RawText} {rest : List RawText}
      (hhere : t.get? here ≠ some .directory) : Ends t ⟨k, here, step :: rest⟩ .notDirectory
  | tooManyLinks {here : Location} {step target : RawText} {rest : List RawText}
      (hhere : t.get? here = some .directory) (hstep : IsName step)
      (hthere : t.get? (here ++ [step]) = some (.link target)) :
      Ends t ⟨0, here, step :: rest⟩ .tooManyLinks
  | tooLong {k : Nat} {here : Location} {step : RawText} {rest : List RawText}
      (hhere : t.get? here = some .directory) (hlong : nameLimit < step.size) :
      Ends t ⟨k, here, step :: rest⟩ .tooLong

/-- **What a path leads to.** The system takes no path that is empty, too long or has a NUL
character in it; an empty one counts as missing. Every other path is walked. -/
inductive LeadsTo (t : FileTree) (path : RawText) : Ending → Prop
  | empty (hempty : path.bytes = []) : LeadsTo t path .missing
  | invalid (hnul : 0 ∈ path.bytes) : LeadsTo t path .invalid
  | tooLong (hnul : 0 ∉ path.bytes) (hlong : pathLimit < path.size) :
      LeadsTo t path .tooLong
  | walk {w : Walk} {ending : Ending} (hnul : 0 ∉ path.bytes) (hempty : path.bytes ≠ [])
      (hshort : path.size ≤ pathLimit)
      (hwalk : ReflTransGen t.Goes ⟨linkLimit, t.start path, Path.steps path⟩ w)
      (hends : t.Ends w ending) : LeadsTo t path ending

/-- What resolving a path gives that comes to this ending. -/
def Ending.result : Ending → Except IoError (Location × Entry)
  | .entry l e => .ok (l, e)
  | .missing => .error .notFound
  | .notDirectory => .error .notDirectory
  | .tooManyLinks => .error .tooManyLinks
  | .tooLong => .error .nameTooLong
  | .invalid => .error .nulInName

/-- Different endings give different results. -/
theorem Ending.result_injective : Function.Injective Ending.result := by
  intro ending other h
  cases ending <;> cases other <;>
    simp_all [result, IoError.notFound, IoError.notDirectory, IoError.tooManyLinks,
      IoError.nameTooLong]

/-- What the function that walks gives from here on. -/
def Walk.outcome (t : FileTree) (w : Walk) : Except IoError (Location × Entry) :=
  match t.locate w.links w.here w.ahead with
  | .ok (l, some e) => .ok (l, e)
  | .ok (_, none) => .error .notFound
  | .error e => .error e

variable {t : FileTree} {path : RawText} {w w' : Walk} {ending : Ending}

/-- **A step of a walk does not change its outcome.** -/
theorem Goes.outcome_eq (h : t.Goes w w') : w.outcome t = w'.outcome t := by
  unfold Walk.outcome
  cases h with
  | stay hhere =>
    rw [locate.eq_def]
    simp [hhere]
  | back hhere =>
    rw [locate.eq_def]
    simp [hhere]
  | into hhere hstep hthere hlink => rw [locate_name hhere hstep hthere hlink]
  | along hhere hstep hthere =>
    rw [locate.eq_def]
    simp only [hhere, hstep.ne_dot, hstep.ne_dots, Nat.not_lt.2 hstep.short, if_false, hthere]

theorem outcome_of_reaches (h : ReflTransGen t.Goes w w') : w.outcome t = w'.outcome t := by
  induction h with
  | refl => rfl
  | tail _ hstep ih => rw [ih, hstep.outcome_eq]

/-- **Where a walk ends is its outcome.** -/
theorem Ends.outcome_eq (h : t.Ends w ending) : w.outcome t = ending.result := by
  unfold Walk.outcome
  cases h with
  | arrived hhere =>
    rw [locate_nil, hhere]
    rfl
  | nowhere hhere =>
    rw [locate_nil, hhere]
    rfl
  | @missing k here step rest hhere hstep hthere =>
    rw [locate.eq_def]
    simp only [hhere, hstep.ne_dot, hstep.ne_dots, Nat.not_lt.2 hstep.short, if_false, hthere]
    cases rest <;> rfl
  | notDirectory hhere =>
    rw [locate_cons_of_ne hhere]
    rfl
  | tooManyLinks hhere hstep hthere =>
    rw [locate.eq_def]
    simp only [hhere, hstep.ne_dot, hstep.ne_dots, Nat.not_lt.2 hstep.short, if_false, hthere]
    rfl
  | @tooLong k here step rest hhere hlong =>
    have hdot : step ≠ Path.dot := by
      rintro rfl
      revert hlong
      decide
    have hdots : step ≠ Path.dots := by
      rintro rfl
      revert hlong
      decide
    rw [locate.eq_def]
    simp only [hhere, hdot, hdots, hlong, if_true, if_false]
    rfl

/-- **Every walk comes to an end.** -/
theorem exists_ends (k : Nat) (here : Location) (steps : List RawText) :
    ∃ w ending, ReflTransGen t.Goes ⟨k, here, steps⟩ w ∧ t.Ends w ending := by
  -- the induction is that of the walking function, which gets shorter or follows a link
  fun_induction locate t k here steps with
  | case1 k here =>
    cases hhere : t.get? here with
    | none => exact ⟨_, _, .refl, .nowhere hhere⟩
    | some e => exact ⟨_, _, .refl, .arrived hhere⟩
  | case2 k here rest hhere ih =>
    obtain ⟨w, ending, hwalk, hends⟩ := ih
    exact ⟨w, ending, .head (.stay hhere) hwalk, hends⟩
  | case3 k here rest hhere hdot ih =>
    obtain ⟨w, ending, hwalk, hends⟩ := ih
    exact ⟨w, ending, .head (.back hhere) hwalk, hends⟩
  | case4 k here step rest hhere hdot hdots hlong => exact ⟨_, _, .refl, .tooLong hhere hlong⟩
  | case5 k here step rest hhere hdot hdots hlong there hnone hrest =>
    exact ⟨_, _, .refl, .missing hhere ⟨hdot, hdots, Nat.not_lt.1 hlong⟩ hnone⟩
  | case6 k here step rest hhere hdot hdots hlong there hnone hrest =>
    exact ⟨_, _, .refl, .missing hhere ⟨hdot, hdots, Nat.not_lt.1 hlong⟩ hnone⟩
  | case7 here step rest hhere hdot hdots hlong there target hlink =>
    exact ⟨_, _, .refl, .tooManyLinks hhere ⟨hdot, hdots, Nat.not_lt.1 hlong⟩ hlink⟩
  | case8 here step rest hhere hdot hdots hlong there target hlink k ih =>
    simp only [dite_eq_ite] at ih
    obtain ⟨w, ending, hwalk, hends⟩ := ih
    exact ⟨w, ending, .head (.along hhere ⟨hdot, hdots, Nat.not_lt.1 hlong⟩ hlink) hwalk, hends⟩
  | case9 k here step rest hhere hdot hdots hlong there e hnolink he ih =>
    obtain ⟨w, ending, hwalk, hends⟩ := ih
    exact ⟨w, ending,
      .head (.into hhere ⟨hdot, hdots, Nat.not_lt.1 hlong⟩ he hnolink) hwalk, hends⟩
  | case10 k here step rest hhere => exact ⟨_, _, .refl, .notDirectory hhere⟩

/-- **Resolving a path gives what the path leads to.** -/
theorem LeadsTo.resolve_eq (h : t.LeadsTo path ending) : t.resolve path = ending.result := by
  cases h with
  | empty hempty =>
    obtain rfl : path = ⟨[]⟩ := RawText.ext hempty
    rfl
  | invalid hnul =>
    have hchecked : checkPath path = .error .nulInName := by
      rw [checkPath, if_pos (List.contains_iff_mem.2 hnul)]
    simp [resolve, hchecked, bind, Except.bind, Ending.result]
  | tooLong hnul hlong =>
    have hempty : path.bytes.isEmpty = false := by
      refine Bool.eq_false_iff.2 fun hempty => ?_
      rw [RawText.size, List.isEmpty_iff.1 hempty] at hlong
      exact absurd hlong (by decide)
    have hchecked : checkPath path = .error .nameTooLong := by
      rw [checkPath, if_neg (by rwa [List.contains_iff_mem]), hempty, if_neg Bool.false_ne_true,
        if_pos hlong]
    simp [resolve, hchecked, bind, Except.bind, Ending.result]
  | @walk w _ hnul hempty hshort hwalk hends =>
    have hchecked : checkPath path = .ok () := by
      rw [checkPath, if_neg (by rwa [List.contains_iff_mem]),
        if_neg (by rwa [List.isEmpty_iff]), if_neg (Nat.not_lt.2 hshort)]
    rw [← hends.outcome_eq, ← outcome_of_reaches hwalk, resolve, hchecked, Walk.outcome]
    cases t.locate linkLimit (t.start path) (Path.steps path) with
    | error e => rfl
    | ok found =>
      obtain ⟨l, entry⟩ := found
      cases entry with
      | none => rfl
      | some e => rfl

/-- A path leads to one ending only. -/
theorem LeadsTo.unique {other : Ending} (h : t.LeadsTo path ending) (h' : t.LeadsTo path other) :
    ending = other :=
  Ending.result_injective (h.resolve_eq.symm.trans h'.resolve_eq)

/-- Every path leads to something. -/
theorem exists_leadsTo (t : FileTree) (path : RawText) : ∃ ending, t.LeadsTo path ending := by
  by_cases hnul : 0 ∈ path.bytes
  · exact ⟨_, .invalid hnul⟩
  · by_cases hempty : path.bytes = []
    · exact ⟨_, .empty hempty⟩
    · rcases Nat.lt_or_ge pathLimit path.size with hlong | hshort
      · exact ⟨_, .tooLong hnul hlong⟩
      · obtain ⟨w, ending, hwalk, hends⟩ :=
          exists_ends (t := t) linkLimit (t.start path) (Path.steps path)
        exact ⟨ending, .walk hnul hempty hshort hwalk hends⟩

/-- **A path leads to what resolving it gives**, and to nothing else. -/
theorem leadsTo_iff : t.LeadsTo path ending ↔ t.resolve path = ending.result := by
  constructor
  · exact LeadsTo.resolve_eq
  · intro h
    obtain ⟨other, hother⟩ := t.exists_leadsTo path
    rw [hother.resolve_eq] at h
    rwa [← Ending.result_injective h]

end FileTree

end DocStore
