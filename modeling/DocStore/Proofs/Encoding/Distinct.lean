import DocStore.Proofs.Encoding.Budget
import Mathlib.Data.List.Forall2
/-!
# Encoding gives each member a name of its own

Whatever an encoder substitutes, an object is encoded entry by entry, and a name
that an earlier entry has is a fault. So in the value of a node the names of
each object differ.
-/

namespace DocStore

namespace Encoder

variable {e : Encoder} {f : Node → Attempt Json}

/-- Two attempts after each other give a value if both do. -/
theorem run_bind_eq_ok {α β : Type} {x : Attempt α} {k : α → Attempt β} {b : β} :
    (x >>= k).run = some (.ok b) ↔ ∃ a, x.run = some (.ok a) ∧ (k a).run = some (.ok b) := by
  rw [run_bind_eq_some]
  constructor
  · rintro (⟨fault, -, hfault⟩ | h)
    · cases hfault
    · exact h
  · exact Or.inr

/-- **Values stand for elements one by one.** -/
theorem forall₂_of_encodeItems {items : List Node} {ws : List Json}
    (h : (encodeItems f items).run = some (.ok ws)) :
    List.Forall₂ (fun n w => (f n).run = some (.ok w)) items ws := by
  induction items generalizing ws with
  | nil =>
    cases h
    exact .nil
  | cons n rest ih =>
    rw [encodeItems] at h
    obtain ⟨first, hfirst, h⟩ := run_bind_eq_ok.1 h
    obtain ⟨others, hothers, h⟩ := run_bind_eq_ok.1 h
    cases h
    exact .cons hfirst (ih hothers)

theorem distinctAll_of_encodeItems (hf : ∀ n w, (f n).run = some (.ok w) → w.Distinct)
    {items : List Node} {ws : List Json} (h : (encodeItems f items).run = some (.ok ws)) :
    Json.DistinctAll ws := by
  have hvalues := forall₂_of_encodeItems h
  clear h
  induction hvalues with
  | nil => trivial
  | cons hfirst _ ih => exact ⟨hf _ _ hfirst, ih⟩

/-- **Members stand for entries one by one**, each under the name of the key and with what
the value encodes to. -/
theorem forall₂_of_encodeEntries {taken : List String} {entries : List (Key × Node)}
    {members : List (String × Json)}
    (h : (encodeEntries f taken entries).run = some (.ok members)) :
    List.Forall₂ (fun entry member =>
      entry.1.name = .ok member.1 ∧ (f entry.2).run = some (.ok member.2)) entries members := by
  induction entries generalizing taken members with
  | nil =>
    cases h
    exact .nil
  | cons entry rest ih =>
    obtain ⟨key, n⟩ := entry
    rw [encodeEntries] at h
    split at h
    next => cases h
    next name hname =>
      split at h
      next => cases h
      next =>
        obtain ⟨first, hfirst, h⟩ := run_bind_eq_ok.1 h
        obtain ⟨others, hothers, h⟩ := run_bind_eq_ok.1 h
        cases h
        exact .cons ⟨hname, hfirst⟩ (ih hothers)

/-- **The values of a list stand for its elements one by one.** -/
theorem exists_items_of_toJson {budget : Nat} {items : List Node} {x : Json}
    (h : e.toJson budget (.array items) = some (.ok x)) :
    ∃ ws, x = .array ws ∧
      List.Forall₂ (fun n w => e.toJson budget n = some (.ok w)) items ws := by
  cases budget with
  | zero => cases h
  | succ budget =>
    rw [toJson, encode] at h
    obtain ⟨ws, hws, h⟩ := run_bind_eq_ok.1 h
    cases h
    refine ⟨ws, rfl, (forall₂_of_encodeItems hws).imp fun n w hw => ?_⟩
    exact encode_extends (Nat.le_succ budget) 0 n (.ok w) hw

/-- **The members of an object stand for its entries one by one.** -/
theorem exists_members_of_toJson {budget : Nat} {entries : List (Key × Node)} {x : Json}
    (h : e.toJson budget (.object entries) = some (.ok x)) :
    ∃ members, x = .object members ∧ List.Forall₂ (fun entry member =>
      entry.1.name = .ok member.1 ∧ e.toJson budget entry.2 = some (.ok member.2))
      entries members := by
  cases budget with
  | zero => cases h
  | succ budget =>
    rw [toJson, encode] at h
    obtain ⟨members, hmembers, hx⟩ := run_bind_eq_ok.1 h
    cases hx
    refine ⟨members, rfl, (forall₂_of_encodeEntries hmembers).imp ?_⟩
    exact fun entry member hentry =>
      ⟨hentry.1, encode_extends (Nat.le_succ budget) 0 _ _ hentry.2⟩

/-- The names of members differ from each other and from those taken. -/
theorem distinctMembers_of_encodeEntries (hf : ∀ n w, (f n).run = some (.ok w) → w.Distinct)
    {taken : List String} {entries : List (Key × Node)} {members : List (String × Json)}
    (h : (encodeEntries f taken entries).run = some (.ok members)) :
    (members.map (·.1)).Nodup ∧ (∀ name ∈ taken, name ∉ members.map (·.1)) ∧
      Json.DistinctMembers members := by
  induction entries generalizing taken members with
  | nil =>
    cases h
    exact ⟨List.nodup_nil, by simp, trivial⟩
  | cons entry rest ih =>
    obtain ⟨key, n⟩ := entry
    rw [encodeEntries] at h
    split at h
    next => cases h
    next name hname =>
      split at h
      next => cases h
      next hfree =>
        obtain ⟨first, hfirst, h⟩ := run_bind_eq_ok.1 h
        obtain ⟨others, hothers, h⟩ := run_bind_eq_ok.1 h
        cases h
        obtain ⟨hnodup, htaken, hdistinct⟩ := ih hothers
        rw [List.map_cons]
        refine ⟨List.nodup_cons.2 ⟨htaken name (List.mem_cons_self ..), hnodup⟩,
          fun other hother hmem => ?_, hf n first hfirst, hdistinct⟩
        rcases List.mem_cons.1 hmem with rfl | hmem
        · exact hfree hother
        · exact htaken other (List.mem_cons_of_mem name hother) hmem

theorem distinct_of_encode {budget chain : Nat} {n : Node} {w : Json}
    (h : (e.encode budget chain n).run = some (.ok w)) : w.Distinct := by
  induction budget generalizing chain n w with
  | zero => cases h
  | succ budget ih =>
    cases n with
    | array items =>
      rw [encode] at h
      obtain ⟨ws, hws, h⟩ := run_bind_eq_ok.1 h
      cases h
      exact distinctAll_of_encodeItems (fun _ _ => ih) hws
    | object entries =>
      rw [encode] at h
      obtain ⟨members, hmembers, h⟩ := run_bind_eq_ok.1 h
      cases h
      obtain ⟨hnodup, -, hdistinct⟩ := distinctMembers_of_encodeEntries (fun _ _ => ih) hmembers
      exact ⟨hnodup, hdistinct⟩
    | null | bool _ | int _ | uint _ | string _ =>
      cases h
      trivial
    | float x =>
      simp only [encode] at h
      split at h
      · cases h
        trivial
      · cases h
    | set _ | timestamp _ | duration _ | bytes _ | record _ _ | foreign _ _ =>
      simp only [encode] at h
      split at h
      · cases h
      · split at h
        next substitute _ => exact ih h
        next => cases h

/-- **In the value of a node the names of each object differ.** -/
theorem distinct_of_toJson {budget : Nat} {n : Node} {w : Json}
    (h : e.toJson budget n = some (.ok w)) : w.Distinct :=
  distinct_of_encode h

end Encoder

end DocStore
