import DocStore.Locks.Registry
import Mathlib.Data.List.Basic
import Mathlib.Data.List.Nodup
/-!
# The locks of a registry

What entering, leaving and abandoning a path do to the paths of a registry and
to the users of each. A registry has each path once (`paths.Nodup`), and all
three keep that.
-/

namespace DocStore

namespace Registry

variable {r : Registry} {p q : Path.Parts} {n : Nat}

theorem mem_paths : p ∈ r.paths ↔ ∃ n, (p, n) ∈ r.locks := by
  simp [paths]

theorem users_eq_zero (h : p ∉ r.paths) : r.users p = 0 := by
  have hnone : r.locks.lookup p = none := by
    rw [List.lookup_eq_none_iff]
    rintro ⟨a, n⟩ hmem
    have hne : p ≠ a := fun hpa => h (mem_paths.2 ⟨n, hpa ▸ hmem⟩)
    simpa using hne
  rw [users, hnone]
  rfl

/-- **The users of a path are those of its lock.** -/
theorem users_eq_of_mem (hnodup : r.paths.Nodup) (h : (p, n) ∈ r.locks) : r.users p = n := by
  obtain ⟨locks⟩ := r
  simp only [paths, users] at hnodup h ⊢
  induction locks with
  | nil => cases h
  | cons lock rest ih =>
    obtain ⟨a, m⟩ := lock
    obtain ⟨ha, hrest⟩ := List.nodup_cons.1 hnodup
    rcases List.mem_cons.1 h with heq | hmem
    · obtain ⟨rfl, rfl⟩ := Prod.mk.inj heq
      rw [List.lookup_cons_self]
      rfl
    · have hne : (p == a) = false := by
        rw [beq_eq_false_iff_ne]
        rintro rfl
        exact ha (List.mem_map.2 ⟨(p, n), hmem, rfl⟩)
      rw [List.lookup_cons, hne]
      exact ih hrest hmem

/-! ## Abandoning -/

theorem paths_abandon (r : Registry) (p : Path.Parts) : (r.abandon p).paths = r.paths := by
  simp only [paths, abandon, List.map_map]
  refine List.map_congr_left fun lock _ => ?_
  simp only [Function.comp_apply]
  split <;> rfl

theorem mem_locks_abandon (h : (q, n) ∈ r.locks) :
    (q, if q = p then n - 1 else n) ∈ (r.abandon p).locks := by
  refine List.mem_map.2 ⟨(q, n), h, ?_⟩
  dsimp only
  split <;> rfl

/-- **Who abandons a path is counted no more.** -/
theorem users_abandon (hnodup : r.paths.Nodup) (p q : Path.Parts) :
    (r.abandon p).users q = if q = p then r.users q - 1 else r.users q := by
  by_cases hq : q ∈ r.paths
  · obtain ⟨n, hn⟩ := mem_paths.1 hq
    rw [users_eq_of_mem hnodup hn]
    exact users_eq_of_mem (by rwa [paths_abandon]) (mem_locks_abandon hn)
  · rw [users_eq_zero hq, users_eq_zero (by rwa [paths_abandon])]
    split <;> rfl

/-! ## Entering -/

/-- Entering adds the path where it is new, and keeps the paths where it is
not. -/
theorem paths_enter (r : Registry) (p : Path.Parts) :
    (r.enter p).paths = if p ∈ r.paths then r.paths else r.paths ++ [p] := by
  rw [enter]
  split
  · simp only [paths, List.map_map]
    refine List.map_congr_left fun lock _ => ?_
    simp only [Function.comp_apply]
    split <;> rfl
  · simp [paths]

theorem nodup_paths_enter (h : r.paths.Nodup) : (r.enter p).paths.Nodup := by
  rw [paths_enter]
  split
  · exact h
  next hp =>
    rw [List.nodup_append]
    refine ⟨h, List.nodup_singleton p, fun a ha b hb => ?_⟩
    rintro rfl
    exact hp (List.mem_singleton.1 hb ▸ ha)

theorem mem_paths_enter : q ∈ (r.enter p).paths ↔ q ∈ r.paths ∨ q = p := by
  rw [paths_enter]
  split
  next hp => exact ⟨Or.inl, fun h => h.elim id (fun heq => heq ▸ hp)⟩
  next => simp

/-- **Who enters a path is counted.** -/
theorem users_enter (hnodup : r.paths.Nodup) (p q : Path.Parts) :
    (r.enter p).users q = if q = p then r.users q + 1 else r.users q := by
  by_cases hq : q ∈ r.paths
  · obtain ⟨n, hn⟩ := mem_paths.1 hq
    rw [users_eq_of_mem hnodup hn]
    refine users_eq_of_mem (nodup_paths_enter hnodup) ?_
    rw [enter]
    split
    · refine List.mem_map.2 ⟨(q, n), hn, ?_⟩
      dsimp only
      split <;> rfl
    next hp =>
      have hne : q ≠ p := fun heq => hp (heq ▸ hq)
      rw [if_neg hne]
      exact List.mem_append_left _ hn
  · rw [users_eq_zero hq]
    split
    next heq =>
      subst heq
      refine users_eq_of_mem (nodup_paths_enter hnodup) ?_
      rw [enter, if_neg hq]
      exact List.mem_append_right _ (List.mem_singleton.2 rfl)
    next hne => exact users_eq_zero fun h => (mem_paths_enter.1 h).elim hq hne

/-! ## Leaving -/

theorem mem_locks_leave :
    (q, n) ∈ (r.leave p).locks ↔ (q, n) ∈ (r.abandon p).locks ∧ (q ≠ p ∨ n ≠ 0) := by
  simp [leave]

theorem nodup_paths_leave (h : r.paths.Nodup) : (r.leave p).paths.Nodup := by
  have hsub : ((r.leave p).locks.map (·.1)).Sublist ((r.abandon p).locks.map (·.1)) :=
    List.filter_sublist.map _
  rw [← paths_abandon r p] at h
  exact h.sublist hsub

/-- **The last user takes the lock along.** -/
theorem mem_paths_leave (hnodup : r.paths.Nodup) (hlast : r.users p = 1) :
    q ∈ (r.leave p).paths ↔ q ∈ r.paths ∧ q ≠ p := by
  rw [mem_paths]
  constructor
  · rintro ⟨n, hn⟩
    obtain ⟨hmem, hkept⟩ := mem_locks_leave.1 hn
    have hq : q ∈ r.paths := paths_abandon r p ▸ mem_paths.2 ⟨n, hmem⟩
    refine ⟨hq, ?_⟩
    rintro rfl
    -- a lock that stays would still have a user
    have hzero := users_eq_of_mem (by rwa [paths_abandon]) hmem
    rw [users_abandon hnodup, if_pos rfl, hlast] at hzero
    exact hkept.elim (fun h => h rfl) (fun h => h hzero.symm)
  · rintro ⟨hq, hne⟩
    obtain ⟨n, hn⟩ := mem_paths.1 hq
    exact ⟨_, mem_locks_leave.2 ⟨mem_locks_abandon hn, Or.inl hne⟩⟩

/-- Leaving changes the count of no other path. -/
theorem users_leave (hnodup : r.paths.Nodup) (hlast : r.users p = 1) (q : Path.Parts) :
    (r.leave p).users q = if q = p then 0 else r.users q := by
  split
  next heq => exact users_eq_zero fun h => ((mem_paths_leave hnodup hlast).1 h).2 heq
  next hne =>
    by_cases hq : q ∈ r.paths
    · obtain ⟨n, hn⟩ := mem_paths.1 hq
      rw [users_eq_of_mem hnodup hn]
      refine users_eq_of_mem (nodup_paths_leave hnodup) ?_
      have hkept := mem_locks_abandon (p := p) hn
      rw [if_neg hne] at hkept
      exact mem_locks_leave.2 ⟨hkept, Or.inl hne⟩
    · rw [users_eq_zero hq]
      exact users_eq_zero fun h => hq ((mem_paths_leave hnodup hlast).1 h).1

end Registry

end DocStore
