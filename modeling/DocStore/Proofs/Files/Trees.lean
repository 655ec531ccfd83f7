import DocStore.Files.Tree
import Mathlib.Tactic.Common
/-!
# What lies where in a tree

Putting and erasing change what lies at one place and nothing else. A tree
`Grows` into another where only directories are new: what creating directories
does to it.
-/

namespace DocStore

namespace FileTree

variable {t t' t'' : FileTree} {l m : Location} {e : Entry}

@[simp] theorem home_put : (t.put l e).home = t.home := rfl

@[simp] theorem get?_nil : t.get? [] = some .directory := rfl

theorem get?_empty (h : l ≠ []) : FileTree.get? {} l = none := by
  simp [get?, h]

theorem get?_put_self (h : l ≠ []) : (t.put l e).get? l = some e := by
  rw [get?, if_neg h]
  exact Std.ExtTreeMap.getElem?_insert_self

theorem get?_put_of_ne (h : m ≠ l) : (t.put l e).get? m = t.get? m := by
  have hcompare : compare l m ≠ .eq := fun heq => h (Std.LawfulEqCmp.eq_of_compare heq).symm
  simp only [get?, put, Std.ExtTreeMap.getElem?_insert, if_neg hcompare]

theorem get?_erase_self (h : l ≠ []) : (t.erase l).get? l = none := by
  rw [get?, if_neg h]
  exact Std.ExtTreeMap.getElem?_erase_self

theorem get?_erase_of_ne (h : m ≠ l) : (t.erase l).get? m = t.get? m := by
  have hcompare : compare l m ≠ .eq := fun heq => h (Std.LawfulEqCmp.eq_of_compare heq).symm
  simp only [get?, erase, Std.ExtTreeMap.getElem?_erase, if_neg hcompare]

/-! ## Trees that differ in directories only -/

/-- **The second tree is the first with more directories**, put one after the
other where nothing was. -/
inductive Grows (t : FileTree) : FileTree → Prop
  | refl : Grows t t
  | put_directory {u : FileTree} {l : Location} (h : Grows t u) (hfree : u.get? l = none) :
      Grows t (u.put l .directory)

namespace Grows

theorem trans (h : t.Grows t') (h' : t'.Grows t'') : t.Grows t'' := by
  induction h' with
  | refl => exact h
  | put_directory _ hfree ih => exact ih.put_directory hfree

theorem home (h : t.Grows t') : t'.home = t.home := by
  induction h with
  | refl => rfl
  | put_directory _ _ ih => rw [home_put, ih]

/-- What is new is a directory. -/
theorem old_or_new (h : t.Grows t') (l : Location) :
    t'.get? l = t.get? l ∨ (t.get? l = none ∧ t'.get? l = some .directory) := by
  induction h with
  | refl => exact Or.inl rfl
  | @put_directory u m _ hfree ih =>
    by_cases hl : l = m
    · subst hl
      have hne : l ≠ [] := by
        rintro rfl
        cases hfree
      rcases ih with hsame | ⟨hnone, hdirectory⟩
      · exact Or.inr ⟨by rw [← hsame, hfree], get?_put_self hne⟩
      · rw [hdirectory] at hfree
        cases hfree
    · rwa [get?_put_of_ne hl]

/-- What was there stays. -/
theorem get?_eq_some (h : t.Grows t') (he : t.get? l = some e) : t'.get? l = some e := by
  rcases h.old_or_new l with heq | ⟨hnone, -⟩
  · rw [heq, he]
  · rw [hnone] at he
    cases he

/-- No link is new. -/
theorem noLink (h : t.Grows t') (hnoLink : ∀ l target, t.get? l ≠ some (.link target)) :
    ∀ l target, t'.get? l ≠ some (.link target) := by
  intro l target hlink
  rcases h.old_or_new l with hold | ⟨-, hnew⟩
  · exact hnoLink l target (hold ▸ hlink)
  · rw [hnew] at hlink
    cases hlink

/-- What is free was free. -/
theorem get?_eq_none (h : t.Grows t') (hfree : t'.get? l = none) : t.get? l = none := by
  rcases h.old_or_new l with hold | ⟨hnone, -⟩
  · rw [← hold, hfree]
  · exact hnone

end Grows

end FileTree

end DocStore
