import DocStore.Encoding.Encode
import Mathlib.Data.List.Basic
/-!
# Encoding without a budget

What encoding gives within a budget, a value or a fault, it gives within every
greater one. So whether a node `Encodes` does not depend on the budget. A list
encodes if its elements do, and an object if its values do and its keys have
names, each its own.
-/

namespace DocStore

namespace Encoder

variable {e : Encoder} {f g : Node → Attempt Json}

/-- Two attempts after each other give something only if the first does. -/
theorem run_bind_eq_some {α β : Type} {x : Attempt α} {k : α → Attempt β}
    {result : Except EncodeError β} :
    (x >>= k).run = some result ↔
      (∃ fault, x.run = some (.error fault) ∧ result = .error fault) ∨
      ∃ a, x.run = some (.ok a) ∧ (k a).run = some result := by
  rw [ExceptT.run_bind]
  cases hx : x.run with
  | none => simp
  | some r =>
    cases r with
    | error fault => simp [eq_comm]
    | ok a => simp

/-- **One way of encoding gives all that the other gives.** -/
def Extends (g f : Node → Attempt Json) : Prop :=
  ∀ n result, (f n).run = some result → (g n).run = some result

theorem encodeItems_extends (h : Extends g f) {items : List Node}
    {result : Except EncodeError (List Json)} (hrun : (encodeItems f items).run = some result) :
    (encodeItems g items).run = some result := by
  induction items generalizing result with
  | nil => exact hrun
  | cons v rest ih =>
    rw [encodeItems] at hrun ⊢
    rcases run_bind_eq_some.1 hrun with ⟨fault, hv, rfl⟩ | ⟨first, hv, hrun⟩
    · exact run_bind_eq_some.2 (Or.inl ⟨fault, h v _ hv, rfl⟩)
    · refine run_bind_eq_some.2 (Or.inr ⟨first, h v _ hv, ?_⟩)
      rcases run_bind_eq_some.1 hrun with ⟨fault, hrest, rfl⟩ | ⟨others, hrest, hrun⟩
      · exact run_bind_eq_some.2 (Or.inl ⟨fault, ih hrest, rfl⟩)
      · exact run_bind_eq_some.2 (Or.inr ⟨others, ih hrest, hrun⟩)

theorem encodeEntries_extends (h : Extends g f) {taken : List String}
    {entries : List (Key × Node)} {result : Except EncodeError (List (String × Json))}
    (hrun : (encodeEntries f taken entries).run = some result) :
    (encodeEntries g taken entries).run = some result := by
  induction entries generalizing taken result with
  | nil => exact hrun
  | cons entry rest ih =>
    obtain ⟨key, v⟩ := entry
    rw [encodeEntries] at hrun ⊢
    split at hrun
    next => exact hrun
    next name =>
      split at hrun
      next htaken =>
        rw [if_pos htaken]
        exact hrun
      next htaken =>
        rw [if_neg htaken]
        rcases run_bind_eq_some.1 hrun with ⟨fault, hv, rfl⟩ | ⟨first, hv, hrun⟩
        · exact run_bind_eq_some.2 (Or.inl ⟨fault, h v _ hv, rfl⟩)
        · refine run_bind_eq_some.2 (Or.inr ⟨first, h v _ hv, ?_⟩)
          rcases run_bind_eq_some.1 hrun with ⟨fault, hrest, rfl⟩ | ⟨others, hrest, hrun⟩
          · exact run_bind_eq_some.2 (Or.inl ⟨fault, ih hrest, rfl⟩)
          · exact run_bind_eq_some.2 (Or.inr ⟨others, ih hrest, hrun⟩)

/-- **A greater budget gives the same.** -/
theorem encode_extends {budget budget' : Nat} (h : budget ≤ budget') (chain : Nat) :
    Extends (e.encode budget' chain) (e.encode budget chain) := by
  induction budget generalizing budget' chain with
  | zero =>
    intro n result hrun
    cases hrun
  | succ budget ih =>
    obtain ⟨budget', rfl⟩ : ∃ b, budget' = b + 1 := ⟨budget' - 1, by omega⟩
    intro n result hrun
    have hless : budget ≤ budget' := by omega
    cases n with
    | array items =>
      rw [encode] at hrun ⊢
      rcases run_bind_eq_some.1 hrun with ⟨fault, hitems, rfl⟩ | ⟨values, hitems, hrun⟩
      · exact run_bind_eq_some.2 (Or.inl ⟨fault, encodeItems_extends (ih hless 0) hitems, rfl⟩)
      · exact run_bind_eq_some.2
          (Or.inr ⟨values, encodeItems_extends (ih hless 0) hitems, hrun⟩)
    | object entries =>
      rw [encode] at hrun ⊢
      rcases run_bind_eq_some.1 hrun with ⟨fault, hentries, rfl⟩ | ⟨members, hentries, hrun⟩
      · exact run_bind_eq_some.2
          (Or.inl ⟨fault, encodeEntries_extends (ih hless 0) hentries, rfl⟩)
      · exact run_bind_eq_some.2
          (Or.inr ⟨members, encodeEntries_extends (ih hless 0) hentries, hrun⟩)
    | null | bool _ | int _ | uint _ | float _ | string _ => exact hrun
    | set _ | timestamp _ | duration _ | bytes _ | record _ _ | foreign _ _ =>
      -- whatever has no JSON form of its own goes by its substitute
      simp only [encode] at hrun ⊢
      split at hrun
      next hchain =>
        rw [if_pos hchain]
        exact hrun
      next hchain =>
        rw [if_neg hchain]
        split at hrun
        next substitute _ => exact ih hless (chain + 1) substitute result hrun
        next => exact hrun

/-- What a node encodes to is the same within every budget that suffices. -/
theorem toJson_unique {budget budget' : Nat} {n : Node} {result result' : Except EncodeError Json}
    (h : e.toJson budget n = some result) (h' : e.toJson budget' n = some result') :
    result = result' := by
  -- the greater of the two budgets gives both
  have hmax := encode_extends (e := e) (Nat.le_max_left budget budget') 0 n result h
  have hmax' := encode_extends (e := e) (Nat.le_max_right budget budget') 0 n result' h'
  exact Option.some.inj (hmax.symm.trans hmax')

/-- Where encoding returns, it returns within every greater budget. -/
theorem isSome_of_le {budget budget' : Nat} {n : Node} (hle : budget ≤ budget')
    (h : (e.toJson budget n).isSome) : (e.toJson budget' n).isSome := by
  obtain ⟨result, hresult⟩ := Option.isSome_iff_exists.1 h
  exact Option.isSome_iff_exists.2 ⟨result, encode_extends hle 0 n result hresult⟩

/-- **What each of some things has within a budget of its own**, all have from one
budget on, if a greater budget does no harm. -/
theorem exists_least {α : Type} {P : Nat → α → Prop}
    (hmono : ∀ x budget budget', budget ≤ budget' → P budget x → P budget' x) (xs : List α)
    (h : ∀ x ∈ xs, ∃ budget, P budget x) :
    ∃ least, ∀ budget, least ≤ budget → ∀ x ∈ xs, P budget x := by
  induction xs with
  | nil => exact ⟨0, by simp⟩
  | cons x rest ih =>
    obtain ⟨⟨budget, hbudget⟩, hrest⟩ := List.forall_mem_cons.1 h
    obtain ⟨least, hleast⟩ := ih hrest
    refine ⟨max budget least, fun budget' hle => List.forall_mem_cons.2 ⟨?_, ?_⟩⟩
    · exact hmono x budget budget' (by omega) hbudget
    · exact hleast budget' (by omega)

/-- **A node encodes**, given a budget that suffices. -/
def Encodes (e : Encoder) (n : Node) : Prop := ∃ budget v, e.toJson budget n = some (.ok v)

theorem encodes_iff_of_toJson {budget : Nat} {n : Node} {result : Except EncodeError Json}
    (h : e.toJson budget n = some result) : e.Encodes n ↔ ∃ v, result = .ok v := by
  constructor
  · rintro ⟨budget', v, h'⟩
    exact ⟨v, toJson_unique h h'⟩
  · rintro ⟨v, rfl⟩
    exact ⟨budget, v, h⟩

/-! ## Lists and objects -/

/-- Elements that encode, encode within one budget. -/
theorem exists_encodeItems (items : List Node) (h : ∀ v ∈ items, e.Encodes v) :
    ∃ budget values, (encodeItems (e.encode budget 0) items).run = some (.ok values) := by
  induction items with
  | nil => exact ⟨0, [], rfl⟩
  | cons v rest ih =>
    obtain ⟨budget, first, hfirst⟩ := h v (List.mem_cons_self ..)
    obtain ⟨budget', others, hothers⟩ := ih fun u hu => h u (List.mem_cons_of_mem v hu)
    refine ⟨max budget budget', first :: others, ?_⟩
    rw [encodeItems]
    refine run_bind_eq_some.2 (Or.inr ⟨first, ?_, ?_⟩)
    · exact encode_extends (Nat.le_max_left ..) 0 v _ hfirst
    · refine run_bind_eq_some.2 (Or.inr ⟨others, ?_, rfl⟩)
      exact encodeItems_extends (encode_extends (Nat.le_max_right ..) 0) hothers

theorem encodes_of_encodeItems {budget : Nat} {items : List Node} {values : List Json}
    (h : (encodeItems (e.encode budget 0) items).run = some (.ok values)) :
    ∀ v ∈ items, e.Encodes v := by
  induction items generalizing values with
  | nil => simp
  | cons v rest ih =>
    rw [encodeItems] at h
    rcases run_bind_eq_some.1 h with ⟨fault, -, hfault⟩ | ⟨first, hfirst, h⟩
    · cases hfault
    · rcases run_bind_eq_some.1 h with ⟨fault, -, hfault⟩ | ⟨others, hothers, -⟩
      · cases hfault
      · exact List.forall_mem_cons.2 ⟨⟨budget, first, hfirst⟩, ih hothers⟩

/-- **A list encodes if its elements do.** -/
theorem encodes_array_iff {items : List Node} :
    e.Encodes (.array items) ↔ ∀ v ∈ items, e.Encodes v := by
  constructor
  · rintro ⟨budget, v, h⟩
    cases budget with
    | zero => cases h
    | succ budget =>
      rw [toJson, encode] at h
      rcases run_bind_eq_some.1 h with ⟨fault, -, hfault⟩ | ⟨values, hvalues, -⟩
      · cases hfault
      · exact encodes_of_encodeItems hvalues
  · intro h
    obtain ⟨budget, values, hvalues⟩ := exists_encodeItems items h
    refine ⟨budget + 1, .array values, ?_⟩
    rw [toJson, encode]
    exact run_bind_eq_some.2 (Or.inr ⟨values, hvalues, rfl⟩)

/-- **The keys of entries have names**, none of them taken. -/
def HasNames : (taken : List String) → List (Key × Node) → Prop
  | _, [] => True
  | taken, (key, _) :: rest =>
    ∃ name, key.name = .ok name ∧ name ∉ taken ∧ HasNames (name :: taken) rest

theorem exists_encodeEntries (taken : List String) (entries : List (Key × Node))
    (hnames : HasNames taken entries) (h : ∀ entry ∈ entries, e.Encodes entry.2) :
    ∃ budget members,
      (encodeEntries (e.encode budget 0) taken entries).run = some (.ok members) := by
  induction entries generalizing taken with
  | nil => exact ⟨0, [], rfl⟩
  | cons entry rest ih =>
    obtain ⟨key, v⟩ := entry
    obtain ⟨name, hname, htaken, hrest⟩ := hnames
    obtain ⟨budget, first, hfirst⟩ := h (key, v) (List.mem_cons_self ..)
    obtain ⟨budget', others, hothers⟩ :=
      ih (name :: taken) hrest fun u hu => h u (List.mem_cons_of_mem _ hu)
    refine ⟨max budget budget', (name, first) :: others, ?_⟩
    rw [encodeEntries, hname]
    dsimp only
    rw [if_neg htaken]
    refine run_bind_eq_some.2 (Or.inr ⟨first, ?_, ?_⟩)
    · exact encode_extends (Nat.le_max_left ..) 0 v _ hfirst
    · refine run_bind_eq_some.2 (Or.inr ⟨others, ?_, rfl⟩)
      exact encodeEntries_extends (encode_extends (Nat.le_max_right ..) 0) hothers

theorem hasNames_of_encodeEntries {budget : Nat} {taken : List String}
    {entries : List (Key × Node)} {members : List (String × Json)}
    (h : (encodeEntries (e.encode budget 0) taken entries).run = some (.ok members)) :
    HasNames taken entries ∧ ∀ entry ∈ entries, e.Encodes entry.2 := by
  induction entries generalizing taken members with
  | nil => exact ⟨trivial, by simp⟩
  | cons entry rest ih =>
    obtain ⟨key, v⟩ := entry
    rw [encodeEntries] at h
    cases hname : key.name with
    | error fault =>
      rw [hname] at h
      cases h
    | ok name =>
      rw [hname] at h
      dsimp only at h
      by_cases htaken : name ∈ taken
      · rw [if_pos htaken] at h
        cases h
      · rw [if_neg htaken] at h
        rcases run_bind_eq_some.1 h with ⟨fault, -, hfault⟩ | ⟨first, hfirst, h⟩
        · cases hfault
        · rcases run_bind_eq_some.1 h with ⟨fault, -, hfault⟩ | ⟨others, hothers, -⟩
          · cases hfault
          · obtain ⟨hnames, hvalues⟩ := ih hothers
            exact ⟨⟨name, hname, htaken, hnames⟩,
              List.forall_mem_cons.2 ⟨⟨budget, first, hfirst⟩, hvalues⟩⟩

/-- **An object encodes if its values do and its keys have names**, each its
own. -/
theorem encodes_object_iff {entries : List (Key × Node)} :
    e.Encodes (.object entries) ↔
      HasNames [] entries ∧ ∀ entry ∈ entries, e.Encodes entry.2 := by
  constructor
  · rintro ⟨budget, v, h⟩
    cases budget with
    | zero => cases h
    | succ budget =>
      rw [toJson, encode] at h
      rcases run_bind_eq_some.1 h with ⟨fault, -, hfault⟩ | ⟨members, hmembers, -⟩
      · cases hfault
      · exact hasNames_of_encodeEntries hmembers
  · rintro ⟨hnames, h⟩
    obtain ⟨budget, members, hmembers⟩ := exists_encodeEntries [] entries hnames h
    refine ⟨budget + 1, .object members, ?_⟩
    rw [toJson, encode]
    exact run_bind_eq_some.2 (Or.inr ⟨members, hmembers, rfl⟩)

end Encoder

end DocStore
