import DocStore.Proofs.Saving.Acts
/-!
# A replacement comes to its end

What `Replacement.runFrom` does in a tree of its own, a replacement can do in a
tree that others share, while they wait: each of its acts is a move, and none
of its removals fails (`exists_advances_runFrom`).
-/

namespace DocStore

namespace Phase

/-- A run in which each write is done at once comes closer to its end with
every act. -/
theorem ahead_step_lt (r : Replacement) (t : FileTree) (p : Phase)
    (hfinished : ∀ outcome, p ≠ .finished outcome)
    (hleft : ∀ temp left, p = .writing temp left → left.length ≤ r.content.length) :
    (r.step r.content.length t p).2.ahead < p.ahead := by
  cases p with
  | preparing =>
    rw [Replacement.step]
    split
    · split
      · simp [ahead]
      · simp [ahead]
    · simp [ahead]
  | creating =>
    rw [Replacement.step]
    split
    · simp [ahead]
    · simp [ahead]
  | writing temp left =>
    rw [Replacement.step, List.drop_eq_nil_of_le (hleft temp left rfl)]
    simp [ahead]
  | syncing temp => simp [Replacement.step, ahead]
  | opening temp =>
    rw [Replacement.step]
    split
    · simp [ahead]
    · split
      · simp [ahead]
      · simp [ahead]
  | «renaming» temp =>
    rw [Replacement.step]
    split
    · simp [ahead]
    · simp [ahead]
  | removing temp outcome =>
    rw [Replacement.step]
    split
    · split
      · simp [ahead]
      · simp [ahead]
    · simp [ahead]
  | finished outcome => exact absurd rfl (hfinished outcome)

end Phase

/-- A run goes on behind the act at hand. -/
theorem Replacement.runFrom_succ (r : Replacement) (t : FileTree) (acts : Nat) {p : Phase}
    (hfinished : ∀ outcome, p ≠ .finished outcome) :
    r.runFrom t (acts + 1) p =
      r.runFrom (r.step r.content.length t p).1 acts (r.step r.content.length t p).2 := by
  cases p with
  | finished outcome => exact absurd rfl (hfinished outcome)
  | _ => rfl

namespace Replacement

variable {r : Replacement} {t : FileTree}

theorem runFrom_finished (t : FileTree) (acts : Nat) (outcome : Except IoError Unit) :
    r.runFrom t acts (.finished outcome) = (t, outcome) := by
  cases acts with
  | zero => rfl
  | succ acts => rfl

/-- A removal ends with the outcome it began with. -/
theorem exists_step_removing (chunk : Nat) (t : FileTree) (temp : Temporary)
    (outcome : Except IoError Unit) :
    ∃ t', r.step chunk t (.removing temp outcome) = (t', .finished outcome) := by
  rw [step]
  split
  · split
    · exact ⟨_, rfl⟩
    · exact ⟨_, rfl⟩
  · exact ⟨_, rfl⟩

theorem snd_runFrom_removing (t : FileTree) (acts : Nat) (temp : Temporary)
    (outcome : Except IoError Unit) :
    (r.runFrom t (acts + 1) (.removing temp outcome)).2 = outcome := by
  obtain ⟨t', hstep⟩ := r.exists_step_removing r.content.length t temp outcome
  rw [r.runFrom_succ t acts (by simp), hstep, runFrom_finished]

end Replacement

namespace Interleaving

variable {ι : Type} [DecidableEq ι] {r : ι → Replacement} {path : RawText} {b : FileTree}
variable {s s' s'' : Interleaving ι} {i : ι} {p : Phase}

/-- **One replacement goes on while the others wait.** It creates nothing more, and
none of its removals fails. -/
structure Advances (r : ι → Replacement) (i : ι) (s s' : Interleaving ι) : Prop where
  reaches : Reaches r s s'
  others : ∀ j, j ≠ i → s'.phase j = s.phase j
  crashed : s'.crashed = s.crashed
  used : s'.used = s.used
  left : s'.left = s.left

namespace Advances

theorem refl : Advances r i s s := ⟨.refl, fun _ _ => rfl, rfl, rfl, rfl⟩

theorem trans (h : Advances r i s s') (h' : Advances r i s' s'') : Advances r i s s'' :=
  ⟨h.reaches.trans h'.reaches, fun j hj => (h'.others j hj).trans (h.others j hj),
    h'.crashed.trans h.crashed, h'.used.trans h.used, h'.left.trans h.left⟩

end Advances

theorem phase_act (chunk : Nat) :
    (s.act r i chunk).phase i = ((r i).step chunk s.tree (s.phase i)).2 := Function.update_self ..

theorem tree_act (chunk : Nat) :
    (s.act r i chunk).tree = ((r i).step chunk s.tree (s.phase i)).1 := rfl

/-- **A replacement that has not begun can create its temporary file**, where it need
not make directories. -/
theorem exists_reaches_writing {k : Nat} {t : FileTree} {temp : Temporary} (hup : i ∉ s.crashed)
    (hphase : s.phase i = .preparing) (hdirs : (r i).createDirs = false)
    (hnth : (r i).createNth s.tree k = .ok (t, temp)) (hfresh : temp.location ∉ s.used) :
    ∃ s', Reaches r s s' ∧ s'.tree = t ∧
      s'.phase = Function.update s.phase i (.writing temp (r i).content) ∧
      s'.crashed = s.crashed ∧ s'.used = temp.location :: s.used ∧ s'.left = s.left := by
  have hact := act_eq (r := r) 0 s.tree .creating hphase
    (by rw [Replacement.step, if_neg (by simp [hdirs])])
  have hready : (s.act r i 0).phase i = .creating := by
    rw [hact]
    exact Function.update_self ..
  have hcreated : (r i).createNth (s.act r i 0).tree k = .ok (t, temp) := by rwa [hact]
  refine ⟨(s.act r i 0).create i t temp (r i).content,
    (Relation.ReflTransGen.single (.act 0 hup (by simp [hphase]))).tail
      (.create hup hready hcreated hfresh), rfl, ?_, rfl, rfl, ?_⟩
  · simp only [create, hact, Function.update_idem]
  · rw [hact]
    rfl

/-- Only the removal of a file that was not renamed leaves one. -/
theorem leaves_eq_nil (stays : Temporary → Bool) (hp : ∀ temp e, p ≠ .removing temp (.error e)) :
    leaves stays p = [] := by
  cases p with
  | removing temp outcome =>
    cases outcome with
    | ok _ => rfl
    | error e => exact absurd rfl (hp temp e)
  | _ => rfl

namespace Invariant

/-- **An act of one replacement.** -/
theorem advances_act (h : Invariant r path b s) (hpath : (r i).path = path) (hup : i ∉ s.crashed)
    (hcreating : s.phase i ≠ .creating) (chunk : Nat) : Advances r i s (s.act r i chunk) := by
  refine ⟨.single (.act chunk hup hcreating), fun j hj => Function.update_of_ne hj .., rfl, rfl, ?_⟩
  have hleaves : leaves (·.removalFails s.tree) (s.phase i) = [] := by
    by_cases hremoving : ∃ temp e, s.phase i = .removing temp (.error e)
    · obtain ⟨temp, e, hphase⟩ := hremoving
      have hlive : (s.phase i).live? = some temp := by rw [hphase, Phase.live?]
      have hfails : temp.removalFails s.tree = false := by
        rcases h.removal_cases hpath hlive with ⟨-, hfails, -⟩ | ⟨-, hfails, -⟩
        · exact hfails
        · exact hfails
      simp [hphase, leaves, hfails]
    · exact leaves_eq_nil _ fun temp e hphase => hremoving ⟨temp, e, hphase⟩
  simp only [Interleaving.act, hleaves, List.nil_append]

/-- **A replacement that has its temporary file can come to its end**, with the tree and
the outcome of a run of its own. One that ends well passes nothing over. -/
theorem exists_advances_runFrom (acts : Nat) (hacts : p.ahead ≤ acts)
    (hcreated : p.ahead < Phase.creating.ahead) (h : Invariant r path b s)
    (hpath : (r i).path = path) (hup : i ∉ s.crashed) (hphase : s.phase i = p) :
    ∃ s', Advances r i s s' ∧ Invariant r path b s' ∧
      s'.tree = ((r i).runFrom s.tree acts p).1 ∧
      s'.phase i = .finished ((r i).runFrom s.tree acts p).2 ∧
      (s'.phase i = .finished (.ok ()) → s'.passedOver = s.passedOver) := by
  -- induction on the acts that lie ahead; each act is a move and leaves fewer
  induction acts generalizing s p with
  | zero =>
    cases p with
    | finished outcome => exact ⟨s, .refl, h, rfl, hphase, fun _ => rfl⟩
    | _ => simp [Phase.ahead] at hacts
  | succ acts ih =>
    by_cases hfinished : ∃ outcome, p = .finished outcome
    · obtain ⟨outcome, rfl⟩ := hfinished
      exact ⟨s, .refl, h, rfl, hphase, fun _ => rfl⟩
    · have hfinished' : ∀ outcome, p ≠ .finished outcome :=
        fun outcome heq => hfinished ⟨outcome, heq⟩
      have hpreparing : p ≠ .preparing := by
        rintro rfl
        simp [Phase.ahead] at hcreated
      have hcreating : p ≠ .creating := by
        rintro rfl
        exact Nat.lt_irrefl _ hcreated
      have hlt := Phase.ahead_step_lt (r i) s.tree p hfinished' (by
        rintro temp left rfl
        have hhand := h.hand i
        rw [hphase] at hhand
        obtain ⟨-, -, written, hwritten, -⟩ := hhand
        rw [← hwritten, List.length_append]
        omega)
      have hadvances := h.advances_act hpath hup (by rwa [hphase]) (r i).content.length
      have hinv := h.act hpath (by rwa [hphase]) (by rwa [hphase]) (r i).content.length
      have hphase' := (phase_act (s := s) (i := i) (r := r) (r i).content.length).trans
        (by rw [hphase])
      obtain ⟨s', hrest, hinv', htree, hend, hpassed⟩ :=
        ih (by omega) (by omega) hinv (by rwa [hadvances.crashed]) hphase'
      have htree' : (s.act r i (r i).content.length).tree =
          ((r i).step (r i).content.length s.tree p).1 := by rw [tree_act, hphase]
      rw [htree', ← (r i).runFrom_succ s.tree acts hfinished'] at htree hend
      refine ⟨s', hadvances.trans hrest, hinv', htree, hend, fun hok => ?_⟩
      have hremoving : ∀ temp e, p ≠ .removing temp (.error e) := by
        rintro temp e rfl
        rw [Replacement.snd_runFrom_removing, hok] at hend
        cases hend
      rw [hpassed hok]
      simp only [Interleaving.act, hphase, leaves_eq_nil _ hremoving, List.nil_append]

/-- A replacement that writes can go on to open its file. -/
theorem exists_advances_opening {temp : Temporary} {left : List UInt8} (h : Invariant r path b s)
    (hpath : (r i).path = path) (hup : i ∉ s.crashed) (hphase : s.phase i = .writing temp left) :
    ∃ s', Advances r i s s' ∧ Invariant r path b s' ∧ s'.phase i = .opening temp ∧
      s'.landed = s.landed := by
  have hwrite := act_eq (r := r) left.length
    (s.tree.append temp.location (left.take left.length)) (.syncing temp) hphase
    (by rw [Replacement.step, List.drop_length])
  have hphase' : (s.act r i left.length).phase i = .syncing temp := by
    rw [hwrite]
    exact Function.update_self ..
  have hinv := h.act hpath (by simp [hphase]) (by simp [hphase]) left.length
  refine ⟨(s.act r i left.length).act r i 0,
    (h.advances_act hpath hup (by simp [hphase]) left.length).trans
      (hinv.advances_act hpath hup (by simp [hphase']) 0),
    hinv.act hpath (by simp [hphase']) (by simp [hphase']) 0, ?_, ?_⟩
  · rw [phase_act, hphase']
    rfl
  · rw [act_eq (r := r) 0 _ (.opening temp) hphase' rfl, hwrite]
    rfl

/-- **A replacement that cannot make its temporary file public passes it over**, where the
path leads to the file no more. -/
theorem exists_passedOver {temp : Temporary} (h : Invariant r path b s) (hpath : (r i).path = path)
    (hup : i ∉ s.crashed) (hphase : s.phase i = .opening temp) (hpublic : (r i).isPrivate = false)
    (hlost : s.tree.resolve temp.path = .error .notDirectory) :
    ∃ s', Advances r i s s' ∧ s'.phase i = .finished (.error .notDirectory) ∧
      temp.location ∈ s'.passedOver := by
  have hset : s.tree.setMode temp.path publicMode = .error .notDirectory := by
    simp [FileTree.setMode, hlost, bind, Except.bind]
  have hleads : s.tree.leadsSomewhere temp.path = false := by
    rw [FileTree.leadsSomewhere, hlost]
    rfl
  have hopen := act_eq (r := r) 0 s.tree (.removing temp (.error .notDirectory)) hphase
    (by rw [Replacement.step, if_neg (by simp [hpublic]), hset])
  have hphase' : (s.act r i 0).phase i = .removing temp (.error .notDirectory) := by
    rw [hopen]
    exact Function.update_self ..
  have hremove := act_eq (r := r) 0 s.tree (.finished (.error .notDirectory)) hphase'
    (by rw [hopen, Replacement.step, hleads, if_neg Bool.false_ne_true])
  have hadvances := (h.advances_act hpath hup (by simp [hphase]) 0).trans
    ((h.act hpath (by simp [hphase]) (by simp [hphase]) 0).advances_act hpath hup
      (by simp [hphase']) 0)
  refine ⟨_, hadvances, ?_, ?_⟩
  · rw [hremove]
    exact Function.update_self ..
  · rw [hremove]
    simp [leaves, Temporary.isPassedOver, hopen, hleads]

end Invariant

end Interleaving

end DocStore
