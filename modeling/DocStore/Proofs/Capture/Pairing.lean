import DocStore.Capture.Capture
import Mathlib.Data.List.Basic
/-!
# Keys and values of a map

A map is described by keys and values in any order. Capture keeps one key at a time, the
most recent one that no value has used (`waiting`); a value takes it and makes an entry,
and where none waits the capture fails. So the entries are those of the values, in their
order, each under the most recent key in front of it (`capture_pairs`).
-/

namespace DocStore

namespace MapCall

/-- What a call describes. -/
def program : MapCall → Program
  | .key p | .value p => p

/-- Whether a call gives a value. -/
def isValue : MapCall → Bool
  | .key _ => false
  | .value _ => true

theorem countP_key (q : Program) (rest : List MapCall) :
    (MapCall.key q :: rest).countP isValue = rest.countP isValue :=
  List.countP_cons_of_neg (by simp [isValue])

theorem countP_value (p : Program) (rest : List MapCall) :
    (MapCall.value p :: rest).countP isValue = rest.countP isValue + 1 :=
  List.countP_cons_of_pos rfl

/-- **A key was given since the last value**, among the calls in front. -/
def KeySinceValue (front : List MapCall) : Prop :=
  ∃ before q between, front = before ++ .key q :: between ∧
    ∀ call ∈ between, call.isValue = false

/-- **The most recent key** among the calls in front describes this. -/
def LatestKey (front : List MapCall) (q : Program) : Prop :=
  ∃ before between, front = before ++ .key q :: between ∧ ∀ call ∈ between, call.isValue = true

/-! ## The key that waits -/

/-- **The key that waits behind calls**: that of the last call, if it is a key. -/
def waiting (front : List MapCall) : Option Key :=
  match front.getLast? with
  | some (.key q) => q.capture.toOption.map Node.toKey
  | _ => none

variable {front rest : List MapCall} {p q : Program} {n : Node} {k : Key}

theorem waiting_concat_key (h : q.capture = .ok n) :
    waiting (front ++ [.key q]) = some n.toKey := by
  simp [waiting, h, Except.toOption]

theorem waiting_concat_value (front : List MapCall) (p : Program) :
    waiting (front ++ [.value p]) = none := by
  simp [waiting]

/-- **A key that waits is the most recent one.** -/
theorem latestKey_of_waiting (h : waiting front = some k) :
    ∃ q n, LatestKey front q ∧ q.capture = .ok n ∧ n.toKey = k := by
  rw [waiting] at h
  split at h
  next q hlast =>
    obtain ⟨before, hbefore⟩ := List.getLast?_eq_some_iff.1 hlast
    obtain ⟨n, hn, rfl⟩ := Option.map_eq_some_iff.1 h
    refine ⟨q, n, ⟨before, [], hbefore, by simp⟩, ?_, rfl⟩
    cases hcapture : q.capture with
    | ok m =>
      rw [hcapture] at hn
      rw [Option.some.inj hn]
    | error e =>
      rw [hcapture] at hn
      cases hn
  next => cases h

/-- **A key waits exactly if one was given since the last value.** -/
theorem waiting_isSome_iff (h : ∀ call ∈ front, ∃ n, call.program.capture = .ok n) :
    (waiting front).isSome ↔ KeySinceValue front := by
  rcases List.eq_nil_or_concat front with rfl | ⟨init, last, rfl⟩
  · simp [waiting, KeySinceValue]
  · rw [List.concat_eq_append] at h ⊢
    cases last with
    | key q =>
      obtain ⟨n, hn⟩ : ∃ n, q.capture = .ok n := h (.key q) (by simp)
      rw [waiting_concat_key hn]
      exact iff_of_true rfl ⟨init, q, [], rfl, by simp⟩
    | value p =>
      rw [waiting_concat_value]
      refine iff_of_false (by simp) ?_
      rintro ⟨before, q, between, heq, hbetween⟩
      -- the last call is no key, so it stands behind the key
      have hlast : (before ++ .key q :: between).getLast? = some (.value p) := by
        rw [← heq, List.getLast?_concat]
      rw [List.getLast?_append, List.getLast?_cons, Option.some_or] at hlast
      rcases List.eq_nil_or_concat between with rfl | ⟨others, last, rfl⟩
      · cases hlast
      · rw [List.concat_eq_append, List.getLast?_concat] at hlast
        obtain rfl : last = .value p := Option.some.inj hlast
        exact absurd (hbetween (.value p) (by simp)) (by simp [isValue])

/-! ## Calls one after the other -/

theorem captureCalls_key (pending : Option Key) (h : q.capture = .ok n) (rest : List MapCall) :
    Program.captureCalls pending (.key q :: rest) = Program.captureCalls (some n.toKey) rest := by
  rw [Program.captureCalls, h]
  rfl

theorem captureCalls_value (k : Key) (h : p.capture = .ok n) (rest : List MapCall) :
    Program.captureCalls (some k) (.value p :: rest) =
      (Program.captureCalls none rest).map ((k, n) :: ·) := by
  rw [Program.captureCalls, h]
  cases Program.captureCalls none rest <;> rfl

/-- **The entries that the values among some calls make** behind the calls in front: one for
each, in order, under the key that waits there. -/
structure Entries (front rest : List MapCall) (entries : List (Key × Node)) : Prop where
  length_eq : entries.length = rest.countP isValue
  getElem?_eq : ∀ mid p last, rest = mid ++ .value p :: last →
    ∃ k v, waiting (front ++ mid) = some k ∧ p.capture = .ok v ∧
      entries[mid.countP isValue]? = some (k, v)

namespace Entries

variable {entries : List (Key × Node)}

theorem nil (front : List MapCall) : Entries front [] [] :=
  ⟨rfl, fun mid p last heq => by simp at heq⟩

theorem key (h : Entries (front ++ [.key q]) rest entries) :
    Entries front (.key q :: rest) entries := by
  refine ⟨by rw [countP_key, h.length_eq], fun mid p last heq => ?_⟩
  cases mid with
  | nil => cases heq
  | cons call mid =>
    obtain ⟨rfl, hrest⟩ := List.cons.inj heq
    have hentry := h.getElem?_eq mid p last hrest
    rwa [← List.append_cons, ← countP_key q mid] at hentry

theorem value (hwaiting : waiting front = some k) (hp : p.capture = .ok n)
    (h : Entries (front ++ [.value p]) rest entries) :
    Entries front (.value p :: rest) ((k, n) :: entries) := by
  refine ⟨by rw [List.length_cons, countP_value, h.length_eq], fun mid p' last heq => ?_⟩
  cases mid with
  | nil =>
    obtain ⟨hcall, -⟩ := List.cons.inj heq
    obtain rfl := MapCall.value.inj hcall
    exact ⟨k, n, by rwa [List.append_nil], hp, rfl⟩
  | cons call mid =>
    obtain ⟨rfl, hrest⟩ := List.cons.inj heq
    have hentry := h.getElem?_eq mid p' last hrest
    rwa [← List.append_cons, ← List.getElem?_cons_succ, ← countP_value p mid] at hentry

end Entries

/-- **Capture goes on from the key that waits.** Either every value among the calls finds a
key and the entries are those of the values, or some value finds none and the capture
fails. -/
theorem captureCalls_waiting (front rest : List MapCall)
    (h : ∀ call ∈ rest, ∃ n, call.program.capture = .ok n) :
    (∃ entries, Program.captureCalls (waiting front) rest = .ok entries ∧
      Entries front rest entries) ∨
    (Program.captureCalls (waiting front) rest = .error .valueBeforeKey ∧
      ∃ mid p last, rest = mid ++ .value p :: last ∧ waiting (front ++ mid) = none) := by
  induction rest generalizing front with
  | nil => exact Or.inl ⟨[], rfl, .nil front⟩
  | cons call rest ih =>
    obtain ⟨hcall, hrest⟩ := List.forall_mem_cons.1 h
    -- a value for which no key waits further on is refused there
    have hlater : (∃ mid p last, rest = mid ++ .value p :: last ∧
          waiting (front ++ [call] ++ mid) = none) →
        ∃ mid p last, call :: rest = mid ++ .value p :: last ∧ waiting (front ++ mid) = none := by
      rintro ⟨mid, p, last, rfl, hnone⟩
      exact ⟨call :: mid, p, last, rfl, by rwa [List.append_cons]⟩
    cases call with
    | key q =>
      obtain ⟨n, hn⟩ : ∃ n, q.capture = .ok n := hcall
      have hrun := ih (front ++ [.key q]) hrest
      rw [waiting_concat_key hn] at hrun
      rw [captureCalls_key _ hn]
      rcases hrun with ⟨entries, hentries, hall⟩ | ⟨herror, hnone⟩
      · exact Or.inl ⟨entries, hentries, hall.key⟩
      · exact Or.inr ⟨herror, hlater hnone⟩
    | value p =>
      obtain ⟨n, hn⟩ : ∃ n, p.capture = .ok n := hcall
      cases hwaiting : waiting front with
      | none => exact Or.inr ⟨rfl, [], p, rest, rfl, by rwa [List.append_nil]⟩
      | some k =>
        have hrun := ih (front ++ [.value p]) hrest
        rw [waiting_concat_value] at hrun
        rw [captureCalls_value k hn]
        rcases hrun with ⟨entries, hentries, hall⟩ | ⟨herror, hnone⟩
        · exact Or.inl ⟨(k, n) :: entries, by rw [hentries]; rfl, hall.value hwaiting hn⟩
        · exact Or.inr ⟨by rw [herror]; rfl, hlater hnone⟩

/-- **A key that no value uses leaves no trace**: one that another follows, or that waits at
the end. -/
theorem captureCalls_unused (h : q.capture = .ok n) (hrest : ∀ p, rest.head? ≠ some (.value p))
    (pending : Option Key) (front : List MapCall) :
    Program.captureCalls pending (front ++ .key q :: rest) =
      Program.captureCalls pending (front ++ rest) := by
  induction front generalizing pending with
  | nil =>
    rw [List.nil_append, List.nil_append, captureCalls_key pending h]
    match rest with
    | [] => rfl
    | .key _ :: _ => rw [Program.captureCalls, Program.captureCalls]
    | .value p :: _ => exact absurd rfl (hrest p)
  | cons call front ih =>
    match call, pending with
    | .key _, _ => simp only [List.cons_append, Program.captureCalls, ih]
    | .value _, none => rfl
    | .value _, some _ => simp only [List.cons_append, Program.captureCalls, ih]

end MapCall

open MapCall in
/-- **A map pairs each value with the most recent key in front of it**, whatever the order of
its calls, if all keys and values can be captured. It can be captured exactly if a key was
given between any two values and in front of the first, and fails over a value before its
key otherwise. Then it has one entry for each value, in order: the value under the key,
which is what the captured key is as a key and gives it back. A key that no value uses
makes no entry, and one that is given again takes none away. -/
theorem capture_pairs (announced : Option Nat) (calls : List MapCall)
    (h : ∀ call ∈ calls, ∃ n, call.program.capture = .ok n) :
    ((∃ node, (Program.map announced calls).capture = .ok node) ↔
      ∀ front p rest, calls = front ++ .value p :: rest → KeySinceValue front) ∧
    (∀ error, (Program.map announced calls).capture = .error error → error = .valueBeforeKey) ∧
    (∀ node, (Program.map announced calls).capture = .ok node →
      ∃ entries, node = .object entries ∧ entries.length = calls.countP isValue ∧
        ∀ front p rest, calls = front ++ .value p :: rest →
          ∃ q k v, LatestKey front q ∧ q.capture = .ok k ∧ p.capture = .ok v ∧
            entries[front.countP isValue]? = some (k.toKey, v) ∧ k.toKey.toNode = k) ∧
    (∀ front q rest, calls = front ++ .key q :: rest → (∀ p, rest.head? ≠ some (.value p)) →
      (Program.map announced (front ++ rest)).capture =
        (Program.map announced calls).capture) := by
  have hwaiting : ∀ front p rest, calls = front ++ .value p :: rest →
      ((waiting front).isSome ↔ KeySinceValue front) := by
    rintro front p rest rfl
    exact waiting_isSome_iff fun call hcall => h call (List.mem_append_left _ hcall)
  have hcapture : (Program.map announced calls).capture =
      (Program.captureCalls none calls).map Node.object := by
    rw [Program.capture]
    cases Program.captureCalls none calls <;> rfl
  have hunused : ∀ front q rest, calls = front ++ .key q :: rest →
      (∀ p, rest.head? ≠ some (.value p)) →
      (Program.map announced (front ++ rest)).capture = (Program.map announced calls).capture := by
    rintro front q rest rfl hrest
    obtain ⟨n, hn⟩ : ∃ n, q.capture = .ok n := h (.key q) (by simp)
    rw [Program.capture, Program.capture, captureCalls_unused hn hrest]
  rcases captureCalls_waiting [] calls h with ⟨entries, hentries, hall⟩ | ⟨herror, hnone⟩
  · have hok : (Program.map announced calls).capture = .ok (.object entries) := by
      rw [hcapture, show Program.captureCalls none calls = .ok entries from hentries]
      rfl
    refine ⟨iff_of_true ⟨_, hok⟩ fun front p rest heq => ?_, fun error herror => ?_,
      fun node hnode => ?_, hunused⟩
    · obtain ⟨k, v, hk, -⟩ := hall.getElem?_eq front p rest heq
      exact (hwaiting front p rest heq).1 (Option.isSome_iff_exists.2 ⟨k, hk⟩)
    · rw [hok] at herror; cases herror
    · obtain rfl : Node.object entries = node := Except.ok.inj (hok.symm.trans hnode)
      refine ⟨entries, rfl, hall.length_eq, fun front p rest heq => ?_⟩
      obtain ⟨k, v, hk, hv, hentry⟩ := hall.getElem?_eq front p rest heq
      obtain ⟨q, n, hlatest, hq, rfl⟩ := latestKey_of_waiting hk
      exact ⟨q, n, v, hlatest, hq, hv, hentry, n.toNode_toKey⟩
  · have hfails : (Program.map announced calls).capture = .error .valueBeforeKey := by
      rw [hcapture, show Program.captureCalls none calls = .error .valueBeforeKey from herror]
      rfl
    refine ⟨iff_of_false (fun ⟨node, hnode⟩ => ?_) fun hall => ?_, fun error herror => ?_,
      fun node hnode => ?_, hunused⟩
    · rw [hfails] at hnode; cases hnode
    · obtain ⟨mid, p, last, heq, hmid⟩ := hnone
      have hsome := (hwaiting mid p last heq).2 (hall mid p last heq)
      rw [show waiting mid = none from hmid] at hsome
      cases hsome
    · exact Except.error.inj (herror.symm.trans hfails)
    · rw [hfails] at hnode; cases hnode

/-- Calls in an unusual order: two keys before the first value, the second of them again
before the next one, and a list as a key that waits at the end. -/
def unusualCalls : List MapCall :=
  [.key (.text "a"), .key (.text "b"), .value (.bool true), .key (.text "b"), .value .unit,
    .key (.list none [])]

/-- The key in use, not the one in front of it, makes both entries. -/
theorem capture_pairs_unusual :
    (∀ call ∈ unusualCalls, ∃ n, call.program.capture = .ok n) ∧
      ∃ entries, (Program.map none unusualCalls).capture = .ok (.object entries) ∧
        entries.length = unusualCalls.countP MapCall.isValue ∧
        entries = [(.string "b", .bool true), (.string "b", .null)] := by
  have hcaptures : ∀ call ∈ unusualCalls, ∃ n, call.program.capture = .ok n := by
    simp [unusualCalls, MapCall.program, Program.capture, Program.captureItems, bind, Except.bind,
      pure, Except.pure]
  have hcapture : (Program.map none unusualCalls).capture =
      .ok (.object [(.string "b", .bool true), (.string "b", .null)]) := rfl
  obtain ⟨entries, hnode, hlength, -⟩ :=
    (capture_pairs none unusualCalls hcaptures).2.2.1 _ hcapture
  obtain rfl := Node.object.inj hnode
  exact ⟨hcaptures, _, hcapture, hlength, rfl⟩

end DocStore
