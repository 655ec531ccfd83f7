import DocStore.Proofs.Locks.InUse
import Mathlib.Logic.Relation
/-!
# What panics leave behind

A panic that goes through the holder of a path leaves its lock in the registry, without a
user. It blocks nobody: the path is taken again like any other, and the next holder that
ends in order takes the lock out. So a registry has the paths that are held and those whose
last holder a panic went through, at every point of a run (`leftovers`), and a thread waits
for ever only for a path that it holds itself.
-/

namespace DocStore

/-- **How a holder let go of its path.** -/
inductive Departure where
  | returned
  | unwound
  deriving DecidableEq, Repr

/-- The holders that let go, each with its path, the latest first. -/
abbrev Departures := List (Path.Parts × Departure)

/-- A departure says nothing of other paths. -/
theorem Departures.lookup_cons_of_ne {p q : Path.Parts} (hqp : q ≠ p) (way : Departure)
    (past : Departures) : List.lookup q ((p, way) :: past) = past.lookup q := by
  rw [List.lookup_cons, beq_eq_false_iff_ne.2 hqp]

/-- The registry without the lock of a path. -/
def Registry.without (r : Registry) (p : Path.Parts) : Registry :=
  ⟨r.locks.filter fun lock => lock.1 ≠ p⟩

/-- The path whose lock a step asks for. -/
def LockStep.path? {α : Type} : LockStep α → Option Path.Parts
  | .hold path _ | .act path _ => some (Path.parts path)
  | _ => none

namespace Registry

variable {r : Registry} {p q : Path.Parts}

theorem mem_paths_without : q ∈ (r.without p).paths ↔ q ∈ r.paths ∧ q ≠ p := by
  simp [paths, without, and_comm]

/-- **The last user leaves the registry without the path**, and the other locks as they
are. -/
theorem leave_eq_without (hnodup : r.paths.Nodup) (hlast : r.users p = 1) :
    r.leave p = r.without p := by
  have hlocks : ∀ lock ∈ r.locks, lock.1 = p → lock.2 = 1 := by
    rintro ⟨q, n⟩ hmem rfl
    rw [← users_eq_of_mem hnodup hmem, hlast]
  rw [leave, abandon, without, List.filter_map]
  congr 1
  -- only the lock of the path has lost its last user, and no other has changed
  have hgone : r.locks.filter ((fun (lock : Path.Parts × Nat) => lock.1 ≠ p || lock.2 ≠ 0) ∘
      fun lock => if lock.1 = p then (lock.1, lock.2 - 1) else lock) =
      r.locks.filter fun lock => lock.1 ≠ p := by
    refine List.filter_congr fun lock hmem => ?_
    by_cases hp : lock.1 = p
    · simp [hp, hlocks lock hmem hp]
    · simp [hp]
  refine (congrArg _ hgone).trans ?_
  refine (List.map_congr_left fun lock hmem => ?_).trans (List.map_id _)
  have hp : lock.1 ≠ p := by simpa using (List.mem_filter.1 hmem).2
  simp [hp]

end Registry

namespace Session

variable {σ α β : Type} {perform : α → σ → σ × β} {s s' : Session σ β} {past : Departures}
  {p : Path.Parts}

mutual

/-- **The holders that let go of the registry at hand during a step**, the latest first.
What happens to another registry meanwhile does not count. -/
def departures (perform : α → σ → σ × β) (s : Session σ β) : LockStep α → Departures
  | .look | .panic _ | .renew _ => []
  | .hold path body =>
    if Path.parts path ∈ s.holding then []
    else
      let inside := (s.take (Path.parts path)).note (.entered path)
      match (inside.carryOutAll perform body).2 with
      | .normal => (Path.parts path, .returned) :: departuresAll perform inside body
      | .panicked _ => (Path.parts path, .unwound) :: departuresAll perform inside body
      | .stuck => departuresAll perform inside body
  | .act path _ => if Path.parts path ∈ s.holding then [] else [(Path.parts path, .returned)]
  | .catchPanic body | .share body => departuresAll perform s body

/-- The holders that let go during steps, up to the first that does not end normally. -/
def departuresAll (perform : α → σ → σ × β) (s : Session σ β) : List (LockStep α) → Departures
  | [] => []
  | step :: rest =>
    match s.carryOut perform step with
    | (next, .normal) => departuresAll perform next rest ++ departures perform s step
    | _ => departures perform s step

end

/-- **The registry has what is held and what panics left behind**: the paths whose last
holder a panic went through. -/
structure Tallied (s : Session σ β) (past : Departures) : Prop where
  accounted : s.Accounted
  mem_paths_iff : ∀ p, p ∈ s.registry.paths ↔ p ∈ s.holding ∨ past.lookup p = some .unwound

namespace Tallied

theorem fresh (world : σ) (seen : List (Moment β)) :
    Tallied { world, seen : Session σ β } [] :=
  ⟨accounted_fresh world seen, fun p => by simp [Registry.paths]⟩

/-- Only the registry, what is held and what was seen matter. -/
theorem congr (h : s.Tallied past) (hregistry : s'.registry = s.registry)
    (hholding : s'.holding = s.holding) (hseen : s.seen ⊆ s'.seen) : s'.Tallied past := by
  refine ⟨h.accounted.congr hregistry hholding hseen, ?_⟩
  rw [hregistry, hholding]
  exact h.mem_paths_iff

theorem note (h : s.Tallied past) (sight : Sight β) : (s.note sight).Tallied past :=
  h.congr rfl rfl (List.subset_cons_self _ _)

/-- **A path that is not held can be taken**, whatever was left behind under it. -/
theorem take (h : s.Tallied past) (hfree : p ∉ s.holding) : (s.take p).Tallied past := by
  refine ⟨h.accounted.take hfree, fun q => ?_⟩
  simp only [Session.take, List.mem_cons]
  rw [Registry.mem_paths_enter, h.mem_paths_iff]
  tauto

/-- **Giving the latest path back takes its lock out, and no other.** -/
theorem registry_giveBack {rest : List Path.Parts} (h : s.Tallied past)
    (hholding : s.holding = p :: rest) : (s.giveBack p).registry = s.registry.without p :=
  Registry.leave_eq_without h.accounted.nodup_paths (h.accounted.of_cons hholding).1

/-- **A holder that returns takes the lock out**, and what was left behind under the path is
gone with it. -/
theorem giveBack {rest : List Path.Parts} (h : s.Tallied past) (hholding : s.holding = p :: rest) :
    (s.giveBack p).Tallied ((p, .returned) :: past) := by
  obtain ⟨-, hp, -⟩ := h.accounted.of_cons hholding
  have hrest : (s.giveBack p).holding = rest := by rw [Session.giveBack, hholding, List.tail_cons]
  refine ⟨h.accounted.giveBack hholding, fun q => ?_⟩
  rw [h.registry_giveBack hholding, Registry.mem_paths_without, h.mem_paths_iff, hholding, hrest]
  by_cases hqp : q = p
  · subst hqp
    simp [hp]
  · rw [Departures.lookup_cons_of_ne hqp]
    simp [hqp]

/-- **A panic leaves the lock behind.** -/
theorem unwind {path : RawText} {rest : List Path.Parts} (h : s.Tallied past)
    (hholding : s.holding = Path.parts path :: rest) :
    ((s.lose (Path.parts path)).note (.unwound path)).Tallied
      ((Path.parts path, .unwound) :: past) := by
  have htail : s.holding.tail = rest := by rw [hholding, List.tail_cons]
  refine ⟨h.accounted.unwind hholding, fun q => ?_⟩
  simp only [Session.note, lose, Registry.paths_abandon, htail]
  rw [h.mem_paths_iff, hholding]
  by_cases hqp : q = Path.parts path
  · subst hqp
    simp
  · rw [Departures.lookup_cons_of_ne hqp]
    simp [hqp]

end Tallied

/-- A lock that is free is taken for one action. -/
theorem carryOut_act {path : RawText} (hfree : Path.parts path ∉ s.holding) (action : α) :
    s.carryOut perform (.act path action) =
      ((({ s.take (Path.parts path) with world := (perform action s.world).1 } :
        Session σ β).giveBack (Path.parts path)).note (.acted (perform action s.world).2),
        .normal) := by
  rw [carryOut, if_neg hfree]
  rfl

mutual

/-- **Every step keeps the tally**, whichever way it ends. -/
theorem tallied_carryOut (perform : α → σ → σ × β) (s : Session σ β) (step : LockStep α)
    {past : Departures} (h : s.Tallied past) :
    (s.carryOut perform step).1.Tallied (departures perform s step ++ past) := by
  match step with
  | .look =>
    rw [carryOut, departures]
    exact h.note _
  | .panic message =>
    rw [carryOut, departures]
    exact h
  | .hold path body =>
    rw [carryOut, departures]
    split
    · exact h
    next hfree =>
      have hinside := (h.take hfree).note (.entered path)
      have hbody := tallied_carryOutAll perform _ body hinside
      -- unless it is stuck, the body ends with the path as the latest that is held
      have hholding := (leadsTo_carryOutAll perform _ body hinside.accounted).holding
      dsimp only
      split
      next after heq =>
        rw [heq] at hbody hholding ⊢
        exact (hbody.giveBack (hholding (by simp))).note _
      next after message heq =>
        rw [heq] at hbody hholding ⊢
        exact hbody.unwind (hholding (by simp))
      next after heq =>
        rw [heq] at hbody ⊢
        exact hbody
  | .act path action =>
    rw [carryOut, departures]
    dsimp only
    split
    · exact h
    next hfree =>
      have hdone : Tallied { s.take (Path.parts path) with world := (perform action s.world).1 }
          past := (h.take hfree).congr rfl rfl (List.Subset.refl _)
      exact (hdone.giveBack rfl).note _
  | .catchPanic body =>
    have hbody := tallied_carryOutAll perform s body h
    rw [carryOut, departures]
    split
    next after heq =>
      rw [heq] at hbody
      exact hbody.note _
    next after message heq =>
      rw [heq] at hbody
      exact hbody.note _
    next after heq =>
      rw [heq] at hbody
      exact hbody
  | .share body =>
    rw [carryOut, departures]
    exact tallied_carryOutAll perform s body h
  | .renew body =>
    rw [carryOut, departures]
    -- the other registry is dropped with all that was done to it
    exact h.congr rfl rfl (leadsTo_carryOutAll perform _ body (accounted_fresh s.world s.seen)).seen

theorem tallied_carryOutAll (perform : α → σ → σ × β) (s : Session σ β)
    (steps : List (LockStep α)) {past : Departures} (h : s.Tallied past) :
    (s.carryOutAll perform steps).1.Tallied (departuresAll perform s steps ++ past) := by
  match steps with
  | [] =>
    rw [carryOutAll, departuresAll]
    exact h
  | step :: rest =>
    have hstep := tallied_carryOut perform s step h
    rw [carryOutAll, departuresAll]
    rcases heq : s.carryOut perform step with ⟨next, ending⟩
    rw [heq] at hstep
    cases ending with
    | normal =>
      dsimp only
      rw [List.append_assoc]
      exact tallied_carryOutAll perform next rest hstep
    | panicked message => exact hstep
    | stuck => exact hstep

end

/-! ## The points of a run -/

/-- **A point of a run**: the state, the holders that let go of the registry at hand so far,
and the steps that are next. -/
structure Point (σ α β : Type) where
  session : Session σ β
  past : Departures := []
  steps : List (LockStep α)

namespace Point

/-- Where a run starts, with a registry of its own. -/
abbrev start (world : σ) (steps : List (LockStep α)) : Point σ α β :=
  { session := { world }, steps }

/-- The thread asks next for a lock that it holds. -/
def Blocked (x : Point σ α β) : Prop :=
  ∃ p, x.steps.head?.bind LockStep.path? = some p ∧ p ∈ x.session.holding

/-- What carrying out the next steps comes to. -/
def outcome (perform : α → σ → σ × β) (x : Point σ α β) : Session σ β × Ending :=
  x.session.carryOutAll perform x.steps

/-- **From a point to the next**: past the first step, or into it. -/
inductive Moves (perform : α → σ → σ × β) : Point σ α β → Point σ α β → Prop
  | goOn {s : Session σ β} {past : Departures} {step : LockStep α} {rest : List (LockStep α)}
      (hnormal : (s.carryOut perform step).2 = .normal) :
      Moves perform ⟨s, past, step :: rest⟩
        ⟨(s.carryOut perform step).1, departures perform s step ++ past, rest⟩
  /-- The steps that were to follow are passed over. -/
  | halt {s : Session σ β} {past : Departures} {step : LockStep α} {rest : List (LockStep α)}
      (hhalt : (s.carryOut perform step).2 ≠ .normal) :
      Moves perform ⟨s, past, step :: rest⟩
        ⟨(s.carryOut perform step).1, departures perform s step ++ past, []⟩
  | hold {s : Session σ β} {past : Departures} {path : RawText} {body rest : List (LockStep α)}
      (hfree : Path.parts path ∉ s.holding) :
      Moves perform ⟨s, past, .hold path body :: rest⟩
        ⟨(s.take (Path.parts path)).note (.entered path), past, body⟩
  | act {s : Session σ β} {past : Departures} {path : RawText} {action : α}
      {rest : List (LockStep α)} (hfree : Path.parts path ∉ s.holding) :
      Moves perform ⟨s, past, .act path action :: rest⟩ ⟨s.take (Path.parts path), past, []⟩
  | catchPanic {s : Session σ β} {past : Departures} {body rest : List (LockStep α)} :
      Moves perform ⟨s, past, .catchPanic body :: rest⟩ ⟨s, past, body⟩
  | share {s : Session σ β} {past : Departures} {body rest : List (LockStep α)} :
      Moves perform ⟨s, past, .share body :: rest⟩ ⟨s, past, body⟩
  | renew {s : Session σ β} {past : Departures} {body rest : List (LockStep α)} :
      Moves perform ⟨s, past, .renew body :: rest⟩
        ⟨{ s with registry := {}, holding := [] }, [], body⟩

/-- A run comes from a point to another. -/
abbrev Comes (perform : α → σ → σ × β) : Point σ α β → Point σ α β → Prop :=
  Relation.ReflTransGen (Moves perform)

variable {x y : Point σ α β}

/-- **The tally is kept from point to point.** -/
theorem Moves.tallied (h : Moves perform x y) (hx : x.session.Tallied x.past) :
    y.session.Tallied y.past := by
  cases h with
  | goOn => exact tallied_carryOut perform _ _ hx
  | halt => exact tallied_carryOut perform _ _ hx
  | hold hfree => exact (hx.take hfree).note _
  | act hfree => exact hx.take hfree
  | catchPanic => exact hx
  | share => exact hx
  | renew => exact .fresh _ _

theorem Comes.tallied (h : Comes perform x y) (hx : x.session.Tallied x.past) :
    y.session.Tallied y.past := by
  induction h with
  | refl => exact hx
  | tail _ hmoves ih => exact hmoves.tallied ih

/-! ### Every moment is a point -/

/-- What a run passes through from a point on, it passes through before. -/
theorem Moves.passes (h : Moves perform x y) (hy : Passes perform y.session y.steps s) :
    Passes perform x.session x.steps s := by
  cases h with
  | goOn hnormal => exact .next (Prod.ext rfl hnormal) hy
  | halt =>
    cases hy
    exact .after
  | hold hfree => exact .hold hfree hy
  | act hfree =>
    cases hy
    exact .act hfree
  | catchPanic => exact .catchPanic hy
  | share => exact .share hy
  | renew => exact .renew hy

theorem comes_of_passes {steps : List (LockStep α)} (h : Passes perform s steps s')
    (past : Departures) : ∃ past' rest, Comes perform ⟨s, past, steps⟩ ⟨s', past', rest⟩ := by
  induction h generalizing past with
  | start => exact ⟨_, _, .refl⟩
  | @after s step rest =>
    by_cases hnormal : (s.carryOut perform step).2 = .normal
    · exact ⟨_, _, .single (.goOn hnormal)⟩
    · exact ⟨_, _, .single (.halt hnormal)⟩
  | @next s s₁ s' step rest hstep _ ih =>
    obtain ⟨past', rest', hcomes⟩ := ih (departures perform s step ++ past)
    have hover : Moves perform ⟨s, past, step :: rest⟩ _ := .goOn (congrArg Prod.snd hstep)
    rw [hstep] at hover
    exact ⟨past', rest', .head hover hcomes⟩
  | hold hfree _ ih =>
    obtain ⟨past', rest', hcomes⟩ := ih past
    exact ⟨past', rest', .head (.hold hfree) hcomes⟩
  | act hfree => exact ⟨_, _, .single (.act hfree)⟩
  | catchPanic _ ih =>
    obtain ⟨past', rest', hcomes⟩ := ih past
    exact ⟨past', rest', .head .catchPanic hcomes⟩
  | share _ ih =>
    obtain ⟨past', rest', hcomes⟩ := ih past
    exact ⟨past', rest', .head .share hcomes⟩
  | renew _ ih =>
    obtain ⟨past', rest', hcomes⟩ := ih []
    exact ⟨past', rest', .head .renew hcomes⟩

/-- **A run passes through the states it comes to.** -/
theorem passes_iff {steps : List (LockStep α)} (past : Departures) :
    Passes perform s steps s' ↔
      ∃ past' rest, Comes perform ⟨s, past, steps⟩ ⟨s', past', rest⟩ := by
  refine ⟨fun h => comes_of_passes h past, ?_⟩
  rintro ⟨past', rest, hcomes⟩
  -- from the end of the run back to its start
  have hback : ∀ x : Point σ α β, Comes perform x ⟨s', past', rest⟩ →
      Passes perform x.session x.steps s' := by
    intro x hx
    induction hx using Relation.ReflTransGen.head_induction_on with
    | refl => exact .start
    | head hmoves _ ih => exact hmoves.passes ih
  exact hback _ hcomes

/-! ### Where a thread is stuck -/

/-- **A lock that is free is taken, and the call ends as its body does.** -/
theorem ending_hold (perform : α → σ → σ × β) {path : RawText} (hfree : Path.parts path ∉ s.holding)
    (body : List (LockStep α)) :
    (s.carryOut perform (.hold path body)).2 =
      (((s.take (Path.parts path)).note (.entered path)).carryOutAll perform body).2 := by
  rw [carryOut, if_neg hfree]
  split
  next heq => rw [heq]
  next heq => rw [heq]
  next heq => rw [heq]

/-- Catching a panic does not help who waits for ever. -/
theorem ending_catchPanic (s : Session σ β) (body : List (LockStep α)) :
    (s.carryOut perform (.catchPanic body)).2 = .stuck ↔
      (s.carryOutAll perform body).2 = .stuck := by
  rw [carryOut]
  split
  next heq => simp [heq]
  next heq => simp [heq]
  next heq => simp [heq]

/-- The first step decides whether the others follow. -/
theorem outcome_cons (perform : α → σ → σ × β) (s : Session σ β) (past : Departures)
    (step : LockStep α) (rest : List (LockStep α)) :
    outcome perform ⟨s, past, step :: rest⟩ =
      if (s.carryOut perform step).2 = .normal then
        (s.carryOut perform step).1.carryOutAll perform rest
      else s.carryOut perform step := by
  rw [outcome, carryOutAll]
  rcases s.carryOut perform step with ⟨next, _ | message | _⟩ <;> rfl

/-- A run that is stuck in its first step is stuck. -/
theorem outcome_of_stuck {step : LockStep α} (h : (s.carryOut perform step).2 = .stuck)
    (past : Departures) (rest : List (LockStep α)) :
    (outcome perform ⟨s, past, step :: rest⟩).2 = .stuck := by
  rw [outcome_cons, if_neg (by simp [h]), h]

theorem Blocked.stuck (h : x.Blocked) : (x.outcome perform).2 = .stuck := by
  obtain ⟨s, past, steps⟩ := x
  obtain ⟨p, hasked, hheld⟩ := h
  match steps with
  | .hold path body :: rest =>
    obtain rfl : Path.parts path = p := by simpa [LockStep.path?] using hasked
    exact outcome_of_stuck (by rw [carryOut, if_pos hheld]) past rest
  | .act path action :: rest =>
    obtain rfl : Path.parts path = p := by simpa [LockStep.path?] using hasked
    exact outcome_of_stuck (by rw [carryOut, if_pos hheld]) past rest

/-- **A run is stuck where a later point is.** -/
theorem Moves.stuck (h : Moves perform x y) (hy : (y.outcome perform).2 = .stuck) :
    (x.outcome perform).2 = .stuck := by
  cases h with
  | goOn hnormal => rwa [outcome_cons, if_pos hnormal]
  | halt => simp [outcome, carryOutAll] at hy
  | @hold s past path body rest hfree =>
    exact outcome_of_stuck ((ending_hold perform hfree body).trans hy) past rest
  | act => simp [outcome, carryOutAll] at hy
  | @catchPanic s past body rest =>
    exact outcome_of_stuck ((ending_catchPanic s body).2 hy) past rest
  | @share s past body rest => exact outcome_of_stuck (by rwa [carryOut]) past rest
  | @renew s past body rest => exact outcome_of_stuck (by rwa [carryOut]) past rest

mutual

/-- **A step is stuck only at a lock that is held.** -/
theorem comes_blocked_of_step (perform : α → σ → σ × β) (s : Session σ β) (step : LockStep α)
    (past : Departures) (rest : List (LockStep α)) (h : (s.carryOut perform step).2 = .stuck) :
    ∃ y, Comes perform ⟨s, past, step :: rest⟩ y ∧ y.Blocked := by
  match step with
  | .look => simp [carryOut] at h
  | .panic message => simp [carryOut] at h
  | .hold path body =>
    by_cases hheld : Path.parts path ∈ s.holding
    · exact ⟨_, .refl, _, rfl, hheld⟩
    · rw [ending_hold perform hheld] at h
      obtain ⟨y, hcomes, hy⟩ := comes_blocked_of_steps perform _ body past h
      exact ⟨y, .head (.hold hheld) hcomes, hy⟩
  | .act path action =>
    by_cases hheld : Path.parts path ∈ s.holding
    · exact ⟨_, .refl, _, rfl, hheld⟩
    · simp [carryOut, hheld] at h
  | .catchPanic body =>
    obtain ⟨y, hcomes, hy⟩ :=
      comes_blocked_of_steps perform s body past ((ending_catchPanic s body).1 h)
    exact ⟨y, .head .catchPanic hcomes, hy⟩
  | .share body =>
    rw [carryOut] at h
    obtain ⟨y, hcomes, hy⟩ := comes_blocked_of_steps perform s body past h
    exact ⟨y, .head .share hcomes, hy⟩
  | .renew body =>
    rw [carryOut] at h
    obtain ⟨y, hcomes, hy⟩ := comes_blocked_of_steps perform _ body [] h
    exact ⟨y, .head .renew hcomes, hy⟩

theorem comes_blocked_of_steps (perform : α → σ → σ × β) (s : Session σ β)
    (steps : List (LockStep α)) (past : Departures)
    (h : (s.carryOutAll perform steps).2 = .stuck) :
    ∃ y, Comes perform ⟨s, past, steps⟩ y ∧ y.Blocked := by
  match steps with
  | [] => simp [carryOutAll] at h
  | step :: rest =>
    have hcons := outcome_cons perform s past step rest
    rw [outcome] at hcons
    rw [hcons] at h
    split at h
    next hnormal =>
      obtain ⟨y, hcomes, hy⟩ := comes_blocked_of_steps perform _ rest _ h
      exact ⟨y, .head (.goOn hnormal) hcomes, hy⟩
    next => exact comes_blocked_of_step perform s step past rest h

end

/-- **A thread waits for ever exactly where it asks for a lock that it holds.** -/
theorem stuck_iff : (x.outcome perform).2 = .stuck ↔ ∃ y, Comes perform x y ∧ y.Blocked := by
  constructor
  · obtain ⟨s, past, steps⟩ := x
    exact comes_blocked_of_steps perform s steps past
  · rintro ⟨y, hcomes, hy⟩
    induction hcomes using Relation.ReflTransGen.head_induction_on with
    | refl => exact hy.stuck
    | head hmoves _ ih => exact hmoves.stuck ih

/-! ### Every call -/

/-- **A call that ends in order takes its lock out, and no other.** -/
theorem registry_hold {path : RawText} {body : List (LockStep α)} {after : Session σ β}
    (h : s.Tallied past) (hfree : Path.parts path ∉ s.holding)
    (hbody : ((s.take (Path.parts path)).note (.entered path)).carryOutAll perform body =
      (after, .normal)) :
    (s.carryOut perform (.hold path body)).1.registry =
      after.registry.without (Path.parts path) := by
  have hinside := (h.take hfree).note (.entered path)
  have htallied := tallied_carryOutAll perform _ body hinside
  have hholding := (leadsTo_carryOutAll perform _ body hinside.accounted).holding
  rw [hbody] at htallied hholding
  rw [carryOut, if_neg hfree, hbody]
  exact htallied.registry_giveBack (hholding (by simp))

end Point

/-- **A panic blocks no path, and what it leaves behind is known.** At every point of a run
(1) the registry has, each once, the paths that are held and those whose last holder a panic
went through. (2) Whoever asks for a path that is not held gets to run its body, and the call
ends as the body does; if that is in order, the registry is the one that the body left
without the path. (3) The same goes for a single action, which always ends in order. (4) Only
a thread that asks for a path it holds does not get it. -/
theorem leftovers (perform : α → σ → σ × β) (world : σ) (steps : List (LockStep α)) :
    (∀ s, Passes perform { world } steps s ↔
      ∃ past rest, Point.Comes perform (.start world steps) ⟨s, past, rest⟩) ∧
    (∀ x, Point.Comes perform (.start world steps) x →
      x.session.registry.paths.Nodup ∧
      ∀ p, p ∈ x.session.registry.paths ↔
        p ∈ x.session.holding ∨ x.past.lookup p = some .unwound) ∧
    (∀ s past path body rest,
      Point.Comes perform (.start world steps) ⟨s, past, .hold path body :: rest⟩ →
      Path.parts path ∉ s.holding →
      let inside := (s.take (Path.parts path)).note (.entered path)
      Point.Comes perform (.start world steps) ⟨inside, past, body⟩ ∧
      (s.carryOut perform (.hold path body)).2 = (inside.carryOutAll perform body).2 ∧
      ∀ after, inside.carryOutAll perform body = (after, .normal) →
        ∃ left, s.carryOut perform (.hold path body) = (left, .normal) ∧
          left.registry = after.registry.without (Path.parts path) ∧
          Path.parts path ∉ left.registry.paths) ∧
    (∀ s past path action rest,
      Point.Comes perform (.start world steps) ⟨s, past, .act path action :: rest⟩ →
      Path.parts path ∉ s.holding →
      ∃ left, s.carryOut perform (.act path action) = (left, .normal) ∧
        left.world = (perform action s.world).1 ∧
        left.registry = (s.take (Path.parts path)).registry.without (Path.parts path) ∧
        Path.parts path ∉ left.registry.paths) ∧
    (((Point.start world steps).outcome perform).2 = .stuck ↔
      ∃ x, Point.Comes perform (.start world steps) x ∧ x.Blocked) := by
  have htallied : ∀ {x}, Point.Comes perform (.start world steps) x → x.session.Tallied x.past :=
    fun hcomes => hcomes.tallied (.fresh world [])
  have hgone : ∀ (r : Registry) (p : Path.Parts), p ∉ (r.without p).paths :=
    fun r p hp => (Registry.mem_paths_without.1 hp).2 rfl
  refine ⟨fun s => Point.passes_iff [], fun x hcomes => ?_, ?_, ?_, Point.stuck_iff⟩
  · exact ⟨(htallied hcomes).accounted.nodup_paths, (htallied hcomes).mem_paths_iff⟩
  · intro s past path body rest hcomes hfree inside
    have hends := Point.ending_hold perform hfree body
    refine ⟨hcomes.tail (.hold hfree), hends, fun after hafter => ?_⟩
    have hregistry := Point.registry_hold (htallied hcomes) hfree hafter
    have hnormal : (s.carryOut perform (.hold path body)).2 = .normal := by rw [hends, hafter]
    refine ⟨_, Prod.ext rfl hnormal, hregistry, ?_⟩
    rw [hregistry]
    exact hgone _ _
  · intro s past path action rest hcomes hfree
    have htaken : (s.take (Path.parts path)).Tallied past := (htallied hcomes).take hfree
    have hregistry := htaken.registry_giveBack rfl
    refine ⟨_, carryOut_act hfree action, rfl, hregistry, ?_⟩
    exact hregistry ▸ hgone _ _

/-- Two panics, one inside the other. Both locks stay behind, and the one that is taken again
goes, under another spelling of its path. -/
theorem leftovers_nested :
    ∃ x : Point Unit Unit Unit,
      Point.Comes (fun _ w => (w, ())) (.start () [
        .catchPanic [.hold "d/a.json" [
          .catchPanic [.hold "d/b.json" [.panic "one"]], .panic "two"]],
        .hold "d/./a.json" [], .look]) x ∧
      x.past = [(Path.parts "d/a.json", .returned), (Path.parts "d/a.json", .unwound),
        (Path.parts "d/b.json", .unwound)] ∧
      x.session.registry.paths = [Path.parts "d/b.json"] ∧
      (Path.parts "d/b.json" ∈ x.session.registry.paths ↔
        Path.parts "d/b.json" ∈ x.session.holding ∨
          x.past.lookup (Path.parts "d/b.json") = some .unwound) := by
  have hcomes : Point.Comes (fun (_ : Unit) w => (w, ())) (.start () [
      .catchPanic [.hold "d/a.json" [
        .catchPanic [.hold "d/b.json" [.panic "one"]], .panic "two"]],
      .hold "d/./a.json" [], .look]) _ :=
    .head (.goOn rfl) (.single (.goOn rfl))
  refine ⟨_, hcomes, by decide, by decide, ?_⟩
  exact ((leftovers _ _ _).2.1 _ hcomes).2 _

end Session

end DocStore
