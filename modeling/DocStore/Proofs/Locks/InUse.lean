import DocStore.Locks.Session
import DocStore.Proofs.Locks.Registries
/-!
# Which locks a registry has

Whatever a thread does, its registry counts one user for each path it holds and
none for any other (`Accounted`). Every way out of a holder keeps that: a normal
one takes the lock out, and a panic leaves it behind without a user. So at every
moment of a run (`Passes`) the registry has the paths that are held and, besides
them, only paths whose holder a panic went through.
-/

namespace DocStore

namespace Session

variable {σ α β : Type} {perform : α → σ → σ × β} {s s' : Session σ β} {p : Path.Parts}

/-- A panic went through a holder of the path. -/
def Lost (s : Session σ β) (p : Path.Parts) : Prop :=
  ∃ m ∈ s.seen, ∃ path, m.sight = .unwound path ∧ Path.parts path = p

/-- **The registry accounts for what is held.** -/
structure Accounted (s : Session σ β) : Prop where
  nodup_paths : s.registry.paths.Nodup
  nodup_holding : s.holding.Nodup
  users_eq : ∀ p, s.registry.users p = if p ∈ s.holding then 1 else 0
  held_or_lost : ∀ p ∈ s.registry.paths, p ∈ s.holding ∨ s.Lost p

/-- What was lost stays lost as more is seen. -/
theorem Lost.mono (h : s.Lost p) (hseen : s.seen ⊆ s'.seen) : s'.Lost p := by
  obtain ⟨m, hm, hunwound⟩ := h
  exact ⟨m, hseen hm, hunwound⟩

theorem accounted_fresh (world : σ) (seen : List (Moment β)) :
    Accounted { world, seen : Session σ β } :=
  ⟨List.nodup_nil, List.nodup_nil, fun _ => rfl, fun _ hp => nomatch hp⟩

namespace Accounted

/-- Only the registry, what is held and what was seen matter. -/
theorem congr (h : s.Accounted) (hregistry : s'.registry = s.registry)
    (hholding : s'.holding = s.holding) (hseen : s.seen ⊆ s'.seen) : s'.Accounted := by
  refine ⟨hregistry ▸ h.nodup_paths, hholding ▸ h.nodup_holding, ?_, fun p hp => ?_⟩
  · rw [hregistry, hholding]
    exact h.users_eq
  · rw [hregistry] at hp
    rw [hholding]
    exact (h.held_or_lost p hp).imp_right fun hlost => hlost.mono hseen

theorem note (h : s.Accounted) (sight : Sight β) : (s.note sight).Accounted :=
  h.congr rfl rfl (List.subset_cons_self _ _)

theorem mem_paths (h : s.Accounted) (hp : p ∈ s.holding) : p ∈ s.registry.paths := by
  by_contra hnot
  have husers := h.users_eq p
  rw [Registry.users_eq_zero hnot, if_pos hp] at husers
  exact absurd husers (by decide)

/-- **A path that is not held can be taken.** -/
theorem take (h : s.Accounted) (hfree : p ∉ s.holding) : (s.take p).Accounted := by
  refine ⟨Registry.nodup_paths_enter h.nodup_paths, List.nodup_cons.2 ⟨hfree, h.nodup_holding⟩,
    fun q => ?_, fun q hq => ?_⟩
  · have husers := h.users_eq q
    simp only [Session.take, Registry.users_enter h.nodup_paths, List.mem_cons]
    by_cases hqp : q = p
    · subst hqp
      rw [if_neg hfree] at husers
      simp [husers]
    · simp [hqp, husers]
  · rcases Registry.mem_paths_enter.1 hq with hq | rfl
    · exact (h.held_or_lost q hq).imp_left fun hheld => List.mem_cons_of_mem p hheld
    · exact Or.inl (List.mem_cons_self ..)

variable {rest : List Path.Parts}

/-- The latest path that is held has one user, and is held once. -/
theorem of_cons (h : s.Accounted) (hholding : s.holding = p :: rest) :
    s.registry.users p = 1 ∧ p ∉ rest ∧ rest.Nodup := by
  have hnodup := h.nodup_holding
  rw [hholding] at hnodup
  obtain ⟨hp, hrest⟩ := List.nodup_cons.1 hnodup
  refine ⟨?_, hp, hrest⟩
  rw [h.users_eq p, if_pos (hholding ▸ List.mem_cons_self ..)]

/-- **Giving the latest path back takes its lock out.** -/
theorem giveBack (h : s.Accounted) (hholding : s.holding = p :: rest) :
    (s.giveBack p).Accounted := by
  obtain ⟨hlast, hp, hrest⟩ := h.of_cons hholding
  have htail : s.holding.tail = rest := by rw [hholding, List.tail_cons]
  refine ⟨Registry.nodup_paths_leave h.nodup_paths, by rwa [Session.giveBack, htail],
    fun q => ?_, fun q hq => ?_⟩
  · have husers := h.users_eq q
    simp only [Session.giveBack, Registry.users_leave h.nodup_paths hlast, htail]
    by_cases hqp : q = p
    · subst hqp
      simp [hp]
    · simpa [hqp, hholding] using husers
  · obtain ⟨hq, hqp⟩ := (Registry.mem_paths_leave h.nodup_paths hlast).1 hq
    refine (h.held_or_lost q hq).imp_left fun hheld => ?_
    rw [hholding] at hheld
    simpa [Session.giveBack, htail, hqp] using hheld

/-- **A panic leaves the lock of the latest path behind**, without a user. -/
theorem unwind {path : RawText} (h : s.Accounted) (hholding : s.holding = Path.parts path :: rest) :
    ((s.lose (Path.parts path)).note (.unwound path)).Accounted := by
  obtain ⟨hlast, hp, hrest⟩ := h.of_cons hholding
  have htail : s.holding.tail = rest := by rw [hholding, List.tail_cons]
  refine ⟨?_, ?_, fun q => ?_, fun q hq => ?_⟩
  · simpa [Session.note, lose, Registry.paths_abandon] using h.nodup_paths
  · simpa [Session.note, lose, htail] using hrest
  · have husers := h.users_eq q
    simp only [Session.note, lose, Registry.users_abandon h.nodup_paths, htail]
    by_cases hqp : q = Path.parts path
    · subst hqp
      simp [hlast, hp]
    · simpa [hqp, hholding] using husers
  · simp only [Session.note, lose, Registry.paths_abandon] at hq
    by_cases hqp : q = Path.parts path
    · exact Or.inr ⟨_, List.mem_cons_self .., path, rfl, hqp.symm⟩
    · refine (h.held_or_lost q hq).imp (fun hheld => ?_)
        fun hlost => hlost.mono (List.subset_cons_self _ _)
      rw [hholding] at hheld
      simpa [Session.note, lose, htail, hqp] using hheld

end Accounted

/-! ## Every way out -/

/-- **What a step leads to**: the registry accounts for what is held, nothing
that was seen is forgotten, and unless the thread is stuck it holds what it held
before. -/
structure LeadsTo (s : Session σ β) (outcome : Session σ β × Ending) : Prop where
  accounted : outcome.1.Accounted
  seen : s.seen ⊆ outcome.1.seen
  holding : outcome.2 ≠ .stuck → outcome.1.holding = s.holding

namespace LeadsTo

variable {path : RawText} {message : String} {inside : Session σ β}

/-- A body that ends normally gives its lock back. -/
theorem giveBack (h : LeadsTo ((s.take (Path.parts path)).note (.entered path)) (inside, .normal)) :
    s.LeadsTo ((inside.giveBack (Path.parts path)).note (.left path), .normal) := by
  have hholding : inside.holding = Path.parts path :: s.holding := h.holding (by simp)
  exact ⟨(h.accounted.giveBack hholding).note _,
    fun m hm => List.mem_cons_of_mem _ (h.seen (List.mem_cons_of_mem _ hm)),
    fun _ => congrArg List.tail hholding⟩

/-- A body that panics loses its lock. -/
theorem unwind (h : LeadsTo ((s.take (Path.parts path)).note (.entered path))
      (inside, .panicked message)) :
    s.LeadsTo ((inside.lose (Path.parts path)).note (.unwound path), .panicked message) := by
  have hholding : inside.holding = Path.parts path :: s.holding := h.holding (by simp)
  exact ⟨h.accounted.unwind hholding,
    fun m hm => List.mem_cons_of_mem _ (h.seen (List.mem_cons_of_mem _ hm)),
    fun _ => congrArg List.tail hholding⟩

/-- Where a thread is stuck, it holds what it holds. -/
theorem stuck (haccounted : inside.Accounted) (hseen : s.seen ⊆ inside.seen) :
    s.LeadsTo (inside, .stuck) :=
  ⟨haccounted, hseen, fun hstuck => absurd rfl hstuck⟩

/-- A caught panic is seen, and no more. -/
theorem note {ending : Ending} (h : s.LeadsTo (inside, ending)) (hending : ending ≠ .stuck)
    (sight : Sight β) : s.LeadsTo (inside.note sight, .normal) :=
  ⟨h.accounted.note sight, fun _ hm => List.mem_cons_of_mem _ (h.seen hm),
    fun _ => h.holding hending⟩

/-- One step after another. -/
theorem trans {outcome : Session σ β × Ending} (h : s.LeadsTo (inside, .normal))
    (h' : inside.LeadsTo outcome) : s.LeadsTo outcome :=
  ⟨h'.accounted, fun _ hm => h'.seen (h.seen hm),
    fun hstuck => (h'.holding hstuck).trans (h.holding (by simp))⟩

end LeadsTo

mutual

/-- **Every step restores the account**, whichever way it ends. -/
theorem leadsTo_carryOut (perform : α → σ → σ × β) (s : Session σ β) (step : LockStep α)
    (h : s.Accounted) : s.LeadsTo (s.carryOut perform step) := by
  have hself : ∀ ending, s.LeadsTo (s, ending) :=
    fun ending => ⟨h, List.Subset.refl _, fun _ => rfl⟩
  match step with
  | .look =>
    rw [carryOut]
    exact (hself .normal).note (by simp) _
  | .panic message =>
    rw [carryOut]
    exact hself _
  | .hold path body =>
    rw [carryOut]
    split
    · exact hself _
    next hfree =>
      have hbody := leadsTo_carryOutAll perform _ body ((h.take hfree).note (.entered path))
      split
      next inside heq =>
        rw [heq] at hbody
        exact hbody.giveBack
      next inside message heq =>
        rw [heq] at hbody
        exact hbody.unwind
      next inside heq =>
        rw [heq] at hbody
        exact .stuck hbody.accounted fun m hm => hbody.seen (List.mem_cons_of_mem _ hm)
  | .act path action =>
    rw [carryOut]
    dsimp only
    split
    · exact hself _
    next hfree =>
      have hdone : Accounted { s.take (Path.parts path) with world := (perform action s.world).1 } :=
        (h.take hfree).congr rfl rfl (List.Subset.refl _)
      exact ⟨(hdone.giveBack rfl).note _, List.subset_cons_self _ _, fun _ => rfl⟩
  | .catchPanic body =>
    have hbody := leadsTo_carryOutAll perform s body h
    rw [carryOut]
    split
    next inside heq =>
      rw [heq] at hbody
      exact hbody.note (by simp) _
    next inside message heq =>
      rw [heq] at hbody
      exact hbody.note (by simp) _
    next inside heq =>
      rw [heq] at hbody
      exact hbody
  | .share body =>
    rw [carryOut]
    exact leadsTo_carryOutAll perform s body h
  | .renew body =>
    have hbody := leadsTo_carryOutAll perform { s with registry := {}, holding := [] } body
      (accounted_fresh s.world s.seen)
    rw [carryOut]
    exact ⟨h.congr rfl rfl hbody.seen, hbody.seen, fun _ => rfl⟩

theorem leadsTo_carryOutAll (perform : α → σ → σ × β) (s : Session σ β)
    (steps : List (LockStep α)) (h : s.Accounted) : s.LeadsTo (s.carryOutAll perform steps) := by
  match steps with
  | [] =>
    rw [carryOutAll]
    exact ⟨h, List.Subset.refl _, fun _ => rfl⟩
  | step :: rest =>
    have hstep := leadsTo_carryOut perform s step h
    rw [carryOutAll]
    split
    next next heq =>
      rw [heq] at hstep
      exact hstep.trans (leadsTo_carryOutAll perform next rest hstep.accounted)
    next next ending _ heq =>
      rw [heq] at hstep
      exact hstep

end

/-! ## Every moment of a run -/

/-- **A run passes through a state**, inside its steps or after one. -/
inductive Passes (perform : α → σ → σ × β) :
    Session σ β → List (LockStep α) → Session σ β → Prop
  | start {s : Session σ β} {steps : List (LockStep α)} : Passes perform s steps s
  | after {s : Session σ β} {step : LockStep α} {rest : List (LockStep α)} :
      Passes perform s (step :: rest) (s.carryOut perform step).1
  | next {s s₁ s' : Session σ β} {step : LockStep α} {rest : List (LockStep α)}
      (hstep : s.carryOut perform step = (s₁, .normal)) (h : Passes perform s₁ rest s') :
      Passes perform s (step :: rest) s'
  | hold {s s' : Session σ β} {path : RawText} {body rest : List (LockStep α)}
      (hfree : Path.parts path ∉ s.holding)
      (h : Passes perform ((s.take (Path.parts path)).note (.entered path)) body s') :
      Passes perform s (.hold path body :: rest) s'
  | act {s : Session σ β} {path : RawText} {action : α} {rest : List (LockStep α)}
      (hfree : Path.parts path ∉ s.holding) :
      Passes perform s (.act path action :: rest) (s.take (Path.parts path))
  | catchPanic {s s' : Session σ β} {body rest : List (LockStep α)}
      (h : Passes perform s body s') : Passes perform s (.catchPanic body :: rest) s'
  | share {s s' : Session σ β} {body rest : List (LockStep α)}
      (h : Passes perform s body s') : Passes perform s (.share body :: rest) s'
  | renew {s s' : Session σ β} {body rest : List (LockStep α)}
      (h : Passes perform { s with registry := {}, holding := [] } body s') :
      Passes perform s (.renew body :: rest) s'

theorem Accounted.of_passes {steps : List (LockStep α)} (h : Passes perform s steps s')
    (hs : s.Accounted) : s'.Accounted := by
  induction h with
  | start => exact hs
  | after => exact (leadsTo_carryOut perform _ _ hs).accounted
  | @next s _ _ step _ hstep _ ih =>
    have haccounted := (leadsTo_carryOut perform s step hs).accounted
    rw [hstep] at haccounted
    exact ih haccounted
  | hold hfree _ ih => exact ih ((hs.take hfree).note _)
  | act hfree => exact hs.take hfree
  | catchPanic _ ih => exact ih hs
  | share _ ih => exact ih hs
  | renew _ ih => exact ih (accounted_fresh _ _)

/-- **At every moment of a run the registry has the locks in use**: each path
that is held has one user, and whatever else is there has none and was lost to a
panic. So where no panic went through a holder, the paths of the registry are
those that are held, and there are none while nothing is held. -/
theorem registry_of_passes {world : σ} {steps : List (LockStep α)}
    (h : Passes perform { world } steps s) :
    (∀ p ∈ s.holding, p ∈ s.registry.paths ∧ s.registry.users p = 1) ∧
    (∀ p ∈ s.registry.paths, p ∉ s.holding → s.registry.users p = 0 ∧ s.Lost p) ∧
    ((∀ p, ¬ s.Lost p) →
      s.registry.paths.Perm s.holding ∧ s.registry.size = s.holding.length) := by
  have haccounted : s.Accounted := (accounted_fresh world []).of_passes h
  refine ⟨fun p hp => ⟨haccounted.mem_paths hp, ?_⟩, fun p hp hnot => ⟨?_, ?_⟩, fun hcalm => ?_⟩
  · rw [haccounted.users_eq, if_pos hp]
  · rw [haccounted.users_eq, if_neg hnot]
  · exact (haccounted.held_or_lost p hp).resolve_left hnot
  · have hsame : ∀ p, p ∈ s.registry.paths ↔ p ∈ s.holding := fun p =>
      ⟨fun hp => (haccounted.held_or_lost p hp).resolve_right (hcalm p), haccounted.mem_paths⟩
    have hperm : s.registry.paths.Perm s.holding :=
      (List.perm_ext_iff_of_nodup haccounted.nodup_paths haccounted.nodup_holding).2 hsame
    refine ⟨hperm, ?_⟩
    rw [← hperm.length_eq, Registry.paths, List.length_map, Registry.size]

/-- A lock inside another. -/
theorem registry_of_passes_nested :
    ∃ s : Session Unit Unit,
      Passes (fun _ w => (w, ())) { world := () }
        [.hold "outer.json" [.hold "inner.json" [.act "third.json" ()]]] s ∧
      s.registry.paths.Perm s.holding ∧ s.registry.size = 3 := by
  have hpasses : Passes (fun (_ : Unit) w => (w, ())) { world := () }
      [.hold "outer.json" [.hold "inner.json" [.act "third.json" ()]]] _ :=
    .hold (by decide) (.hold (by decide) (.act (by decide)))
  refine ⟨_, hpasses, (registry_of_passes hpasses).2.2 ?_⟩
  rintro p ⟨m, hm, path, hsight, -⟩
  -- both sights are of a lock that was entered
  simp only [take, note, List.mem_cons, List.not_mem_nil, or_false] at hm
  rcases hm with rfl | rfl <;> cases hsight

/-- **A lock may stay when nothing is held.** The panic that was caught went
through its holder. -/
theorem lock_left_behind :
    ∃ s : Session Unit Unit,
      Passes (fun (_ : Unit) w => (w, ())) { world := () }
        [.catchPanic [.hold "a.json" [.panic "boom"]]] s ∧
      s.holding = [] ∧ s.registry.paths = [Path.parts "a.json"] ∧ s.registry.size = 1 :=
  ⟨_, .after, by decide, by decide, by decide⟩

end Session

end DocStore
