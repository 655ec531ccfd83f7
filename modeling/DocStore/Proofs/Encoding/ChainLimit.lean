import DocStore.Proofs.Encoding.Distinct
import DocStore.Proofs.Encoding.FirstFault
import DocStore.Proofs.Encoding.Questions
/-!
# The limit of substitutes in a row

A value that no more than `chainLimit` substitutes lead to a native one is encoded
as that one. Where the row breaks off before the limit, or goes on past it, the value
fails, and at the limit the encoder is not asked again. Each element of a list and
each value of an object that encoding comes to has a row of its own: the questions
about it stand in one piece among all questions, its fault is the fault of the whole,
and what it encodes to stands at its place in the value of the whole.
-/

namespace DocStore

namespace Json

/-- What stands within a value under a number: an element of a list, or the value of a
member of an object. -/
def child? : Json → Nat → Option Json
  | .array ws, i => ws[i]?
  | .object members, i => members[i]?.map (·.2)
  | _, _ => none

/-- **What stands at a place**, which is found number by number. -/
def at? (w : Json) (place : List Nat) : Option Json := place.foldlM child? w

theorem at?_concat {w own : Json} {place : List Nat} {i : Nat} (h : w.at? place = some own) :
    w.at? (place ++ [i]) = own.child? i := by
  have hlast : ∀ x : Option Json, (x >>= pure) = x := bind_pure
  rw [at?, List.foldlM_append, ← at?, h]
  exact hlast _

end Json

namespace Encoder

variable {α β γ : Type} {e : Encoder} {n m u v : Node} {fault : EncodeError}
  {budget chain k : Nat} {place : List Nat} {w : Json}

/-! ## One inquiry within another -/

namespace Inquiry

/-- **An inquiry is made in the course of another**: where the whole comes to something,
so does the part, its questions stand in one piece among those of the whole, and its
fault is the fault of the whole. -/
def Within (part : Inquiry α) (whole : Inquiry β) : Prop :=
  ∀ result asked, whole.outcome = some (result, asked) →
    ∃ own ownAsked earlier later, part.outcome = some (own, ownAsked) ∧
      asked = earlier ++ ownAsked ++ later ∧ ∀ fault, own = .error fault → result = .error fault

theorem Within.refl (x : Inquiry α) : x.Within x := fun result asked h =>
  ⟨result, asked, [], [], h, by simp, fun _ hfault => hfault⟩

theorem Within.trans {x : Inquiry α} {y : Inquiry β} {z : Inquiry γ} (h : x.Within y)
    (h' : y.Within z) : x.Within z := by
  intro result asked hz
  obtain ⟨middle, middleAsked, earlier, later, hy, rfl, hresult⟩ := h' result asked hz
  obtain ⟨own, ownAsked, earlier', later', hx, rfl, hmiddle⟩ := h middle middleAsked hy
  exact ⟨own, ownAsked, earlier ++ earlier', later' ++ later, hx, by simp,
    fun fault hfault => hresult fault (hmiddle fault hfault)⟩

/-- The first of two inquiries after each other. -/
theorem within_bind_left (x : Inquiry α) (next : α → Inquiry β) : x.Within (x >>= next) := by
  intro result asked h
  rcases outcome_bind_eq_some.1 h with ⟨fault, hx, rfl⟩ | ⟨a, first, later, hx, -, rfl⟩
  · exact ⟨.error fault, asked, [], [], hx, by simp, fun _ hfault => by cases hfault; rfl⟩
  · exact ⟨.ok a, first, [], later, hx, rfl, fun _ hfault => by cases hfault⟩

/-- **What is made in the second of two inquiries**, where the first has no fault. -/
theorem Within.bind_right {part : Inquiry α} {x : Inquiry β} {next : β → Inquiry γ}
    (hx : ∀ fault asked, x.outcome ≠ some (.error fault, asked))
    (h : ∀ b, part.Within (next b)) : part.Within (x >>= next) := by
  intro result asked hbind
  rcases outcome_bind_eq_some.1 hbind with ⟨fault, hfault, -⟩ | ⟨b, first, later, -, hnext, rfl⟩
  · exact absurd hfault (hx fault asked)
  · obtain ⟨own, ownAsked, earlier, later', hown, rfl, hresult⟩ := h b result later hnext
    exact ⟨own, ownAsked, first ++ earlier, later', hown, by simp, hresult⟩

/-- What encodes has no fault within any budget. -/
theorem outcome_ne_error (h : e.Encodes n) (budget : Nat) (fault : EncodeError)
    (asked : List Node) : (inquireFrom e.ask budget 0 n).outcome ≠ some (.error fault, asked) := by
  intro houtcome
  have hfault : e.toJson budget n = some (.error fault) := by
    rw [← inquire_eq_toJson, inquire, houtcome]
    rfl
  exact FailsWith.not_encodes ⟨budget, hfault⟩ h

end Inquiry

/-! ## What encoding comes to -/

/-- **What encoding a node comes to**, and at which place: the node itself, and within a
list or an object that a value so reached goes by, the elements and the values behind
those that encode. -/
inductive Comes (e : Encoder) (n : Node) : (place : List Nat) → Node → Prop
  | self : Comes e n [] n
  | item {place : List Nat} {v u : Node} {k : Nat} {front rest : List Node} :
      Comes e n place v → k ≤ chainLimit → e.behind k v = some (.array (front ++ u :: rest)) →
      (∀ w ∈ front, e.Encodes w) → Comes e n (place ++ [front.length]) u
  | value {place : List Nat} {v u : Node} {k : Nat} {key : Key}
      {front rest : List (Key × Node)} : Comes e n place v → k ≤ chainLimit →
      e.behind k v = some (.object (front ++ (key, u) :: rest)) →
      (∀ entry ∈ front, e.Encodes entry.2) → HasNames [] (front ++ [(key, u)]) →
      Comes e n (place ++ [front.length]) u

theorem within_inquireItems {f : Node → Inquiry Json} {front : List Node}
    (hfront : ∀ w ∈ front, ∀ fault asked, (f w).outcome ≠ some (.error fault, asked))
    (u : Node) (rest : List Node) : (f u).Within (inquireItems f (front ++ u :: rest)) := by
  induction front with
  | nil => exact Inquiry.within_bind_left _ _
  | cons w front ih =>
    obtain ⟨hw, hfront⟩ := List.forall_mem_cons.1 hfront
    exact .bind_right hw fun _ => (ih hfront).trans (Inquiry.within_bind_left _ _)

theorem within_inquireEntries {f : Node → Inquiry Json} {front : List (Key × Node)} {key : Key}
    {taken : List String}
    (hfront : ∀ entry ∈ front, ∀ fault asked, (f entry.2).outcome ≠ some (.error fault, asked))
    (hnames : HasNames taken (front ++ [(key, u)])) (rest : List (Key × Node)) :
    (f u).Within (inquireEntries f taken (front ++ (key, u) :: rest)) := by
  induction front generalizing taken with
  | nil =>
    obtain ⟨name, hname, hfree, -⟩ := hnames
    rw [List.nil_append, inquireEntries, hname]
    dsimp only
    rw [if_neg hfree]
    exact Inquiry.within_bind_left _ _
  | cons entry front ih =>
    obtain ⟨other, w⟩ := entry
    obtain ⟨hw, hfront⟩ := List.forall_mem_cons.1 hfront
    obtain ⟨name, hname, hfree, hnames⟩ := hnames
    rw [List.cons_append, inquireEntries, hname]
    dsimp only
    rw [if_neg hfree]
    exact .bind_right hw fun _ => (ih hfront hnames).trans (Inquiry.within_bind_left _ _)

/-- What a value goes by is encoded in the course of encoding the value. -/
theorem exists_within_of_behind (h : e.behind k n = some m) (hlimit : chain + k ≤ chainLimit)
    (budget : Nat) :
    ∃ budget', (inquireFrom e.ask budget' (chain + k) m).Within
      (inquireFrom e.ask budget chain n) := by
  induction k generalizing n chain budget with
  | zero =>
    obtain rfl := Option.some.inj h
    exact ⟨budget, .refl _⟩
  | succ k ih =>
    obtain ⟨hnative, substitute, hsubstitute, hbehind⟩ := behind_succ.1 h
    cases budget with
    -- without a budget the whole comes to nothing, and nothing is asked of a part
    | zero => exact ⟨0, fun _ _ hnone => by cases hnone⟩
    | succ budget =>
      have hnext : chain + 1 + k ≤ chainLimit := by omega
      obtain ⟨budget', hwithin⟩ := ih hbehind hnext budget
      rw [Nat.add_right_comm, Nat.add_assoc] at hwithin
      refine ⟨budget', hwithin.trans fun result asked hresult => ?_⟩
      rw [inquireFrom_of_substitute hnative hsubstitute (by omega)] at hresult
      obtain ⟨⟨own, ownAsked⟩, hown, heq⟩ := Option.map_eq_some_iff.1 hresult
      cases heq
      exact ⟨result, ownAsked, [n], [], hown, by simp, fun _ hfault => hfault⟩

/-- **What is encoded in the course of encoding what a value goes by**, is so in the
course of encoding the value. -/
theorem exists_within (hbehind : e.behind k v = some m) (hk : k ≤ chainLimit)
    (h : ∀ inner, (inquireFrom e.ask inner 0 u).Within (inquireFrom e.ask (inner + 1) (0 + k) m))
    (budget : Nat) :
    ∃ inner, (inquireFrom e.ask inner 0 u).Within (inquireFrom e.ask budget 0 v) := by
  have hlimit : 0 + k ≤ chainLimit := by omega
  obtain ⟨budget', hwithin⟩ := exists_within_of_behind hbehind hlimit budget
  cases budget' with
  | zero =>
    have hnothing : (inquireFrom e.ask 0 0 u).Within (inquireFrom e.ask 0 (0 + k) m) :=
      fun _ _ hnone => by cases hnone
    exact ⟨0, hnothing.trans hwithin⟩
  | succ inner => exact ⟨inner, (h inner).trans hwithin⟩

/-- **What encoding comes to, it encodes as if alone**, within some budget. -/
theorem Comes.within (h : e.Comes n place v) (budget : Nat) :
    ∃ inner, (inquireFrom e.ask inner 0 v).Within (inquireFrom e.ask budget 0 n) := by
  induction h with
  | self => exact ⟨budget, .refl _⟩
  | item _ hk hbehind hfront ih =>
    obtain ⟨outer, houter⟩ := ih
    obtain ⟨inner, hinner⟩ := exists_within hbehind hk (fun inner =>
      (within_inquireItems (fun w hw => Inquiry.outcome_ne_error (hfront w hw) inner) _ _).trans
        (Inquiry.within_bind_left _ _)) outer
    exact ⟨inner, hinner.trans houter⟩
  | value _ hk hbehind hfront hnames ih =>
    obtain ⟨outer, houter⟩ := ih
    obtain ⟨inner, hinner⟩ := exists_within hbehind hk (fun inner =>
      (within_inquireEntries (fun w hw => Inquiry.outcome_ne_error (hfront w hw) inner)
        hnames _).trans (Inquiry.within_bind_left _ _)) outer
    exact ⟨inner, hinner.trans houter⟩

/-! ## Rows that end at the limit, before it, and past it -/

/-- **A value is encoded as the native one behind it**, up to the limit. -/
theorem toJson_of_behind_native (h : e.behind k v = some m) (hk : k ≤ chainLimit)
    (hnative : m.isNative = true) (budget : Nat) :
    e.toJson (budget + k) v = e.toJson budget m := by
  rw [toJson, encode_of_behind h (by omega), encode_of_native hnative _ _ 0, toJson]

/-- **A row that breaks off before the limit** makes the value fail. -/
theorem toJson_of_behind_unsupported (h : e.behind k v = some m) (hk : k < chainLimit)
    (hnative : m.isNative = false) (hnone : e.fallback m = none) (budget : Nat) :
    e.toJson (budget + 1 + k) v = some (.error (.unsupported m.typeName)) := by
  rw [toJson, encode_of_behind h (by omega), encode_of_not_native hnative, if_neg (by omega),
    hnone]
  rfl

/-- **At the limit a value that is not native is a fault**, and no question about it is
asked. -/
theorem inquire_of_endless (h : e.behind chainLimit v = some m) (hnative : m.isNative = false)
    (budget : Nat) :
    e.inquire (budget + 1 + chainLimit) v =
      some (.error (.endlessFallback m.typeName), e.row chainLimit v) := by
  rw [inquire, inquireFrom_of_behind h (by omega), inquireFrom_of_not_native hnative,
    if_pos (by omega)]
  have hasked : e.row chainLimit v ++ [] = e.row chainLimit v := List.append_nil _
  exact congrArg (fun asked => some (Except.error _, asked)) hasked

/-- **The fault of what encoding comes to is the fault of the whole.** -/
theorem Comes.failsWith (h : e.Comes n place v) (hv : e.FailsWith v fault) :
    e.FailsWith n fault := by
  have hrow : ∀ {v m k}, e.behind k v = some m → k ≤ chainLimit → m.isNative = true →
      e.FailsWith m fault → e.FailsWith v fault := by
    intro v m k hbehind hk hnative hm
    obtain ⟨budget, hm⟩ := hm
    exact ⟨budget + k, (toJson_of_behind_native hbehind hk hnative budget).trans hm⟩
  induction h with
  | self => exact hv
  | item _ hk hbehind hfront ih => exact ih (hrow hbehind hk rfl (hv.array hfront _))
  | value _ hk hbehind hfront hnames ih =>
    exact ih (hrow hbehind hk rfl (hv.object hnames hfront _))

/-! ## Values at their places -/

/-- What corresponds to the element behind so many. -/
theorem exists_getElem?_of_forall₂ {R : α → β → Prop} {front rest : List α} {a : α} {bs : List β}
    (h : List.Forall₂ R (front ++ a :: rest) bs) : ∃ b, bs[front.length]? = some b ∧ R a b := by
  induction front generalizing bs with
  | nil =>
    cases h with
    | cons hb _ => exact ⟨_, rfl, hb⟩
  | cons _ front ih =>
    cases h with
    | cons _ hrest => exact ih hrest

/-- What a value goes by encodes to what the value does. -/
theorem toJson_behind (h : e.behind k v = some m) (hk : k ≤ chainLimit)
    (hnative : m.isNative = true) (hv : e.toJson budget v = some (.ok w)) :
    e.toJson budget m = some (.ok w) := by
  rw [← toJson_of_behind_native h hk hnative budget]
  exact encode_extends (Nat.le_add_right budget k) 0 v (.ok w) hv

/-- **What encoding comes to stands at its place** in the value of the whole. -/
theorem Comes.exists_at (h : e.Comes n place v) (hn : e.toJson budget n = some (.ok w)) :
    ∃ own, e.toJson budget v = some (.ok own) ∧ w.at? place = some own := by
  induction h with
  | self => exact ⟨w, hn, rfl⟩
  | @item place v u k front rest _ hk hbehind _ ih =>
    obtain ⟨outer, houter, hplace⟩ := ih
    obtain ⟨ws, rfl, hws⟩ := exists_items_of_toJson (toJson_behind hbehind hk rfl houter)
    obtain ⟨own, hown, hu⟩ := exists_getElem?_of_forall₂ hws
    exact ⟨own, hu, (Json.at?_concat hplace).trans hown⟩
  | @value place v u k key front rest _ hk hbehind _ _ ih =>
    obtain ⟨outer, houter, hplace⟩ := ih
    obtain ⟨members, rfl, hmembers⟩ :=
      exists_members_of_toJson (toJson_behind hbehind hk rfl houter)
    obtain ⟨⟨name, own⟩, hown, -, hu⟩ := exists_getElem?_of_forall₂ hmembers
    refine ⟨own, hu, (Json.at?_concat hplace).trans ?_⟩
    rw [Json.child?, hown]
    rfl

/-- **The limit of substitutes is exact**, for the node and for everything that encoding
it comes to: up to the limit a value is what the native one behind it is; a row that
breaks off before the limit is named by its last node; at the limit the row is a fault,
after as many questions as the limit says, and none about the node there. Whatever
encoding comes to is encoded as if alone: its questions stand in one piece among all
questions, its fault is the fault of the whole, and where the whole encodes, so does it,
to what stands at its place. -/
theorem chain_limit_exact (e : Encoder) (n v : Node) (place : List Nat)
    (hv : e.Comes n place v) :
    (∀ budget, (e.inquire budget v).map (·.1) = e.toJson budget v) ∧
    (∀ k m, k ≤ chainLimit → e.behind k v = some m → m.isNative = true →
      ∀ budget, e.toJson (budget + k) v = e.toJson budget m) ∧
    (∀ k m, k < chainLimit → e.behind k v = some m → m.isNative = false → e.fallback m = none →
      ∀ budget, e.toJson (budget + 1 + k) v = some (.error (.unsupported m.typeName))) ∧
    (∀ m, e.behind chainLimit v = some m → m.isNative = false →
      ∀ budget, ∃ asked, e.inquire (budget + 1 + chainLimit) v =
          some (.error (.endlessFallback m.typeName), asked) ∧
        asked.length = chainLimit ∧ ∀ i < chainLimit, asked[i]? = e.behind i v) ∧
    (∀ budget result asked, e.inquire budget n = some (result, asked) →
      ∃ inner own ownAsked earlier later, e.inquire inner v = some (own, ownAsked) ∧
        asked = earlier ++ ownAsked ++ later ∧ ∀ fault, own = .error fault → result = .error fault) ∧
    (∀ fault, e.FailsWith v fault → e.FailsWith n fault) ∧
    ∀ budget w, e.toJson budget n = some (.ok w) →
      ∃ own, e.toJson budget v = some (.ok own) ∧ w.at? place = some own := by
  refine ⟨fun budget => inquire_eq_toJson e budget v, ?_, ?_, ?_, ?_, fun _ => hv.failsWith,
    fun budget w => hv.exists_at⟩
  · exact fun k m hk h hnative budget => toJson_of_behind_native h hk hnative budget
  · exact fun k m hk h hnative hnone budget =>
      toJson_of_behind_unsupported h hk hnative hnone budget
  · intro m h hnative budget
    obtain ⟨hlength, hplaces⟩ := row_of_behind h
    exact ⟨e.row chainLimit v, inquire_of_endless h hnative budget, hlength, hplaces⟩
  · intro budget result asked h
    obtain ⟨inner, hwithin⟩ := hv.within budget
    exact ⟨inner, hwithin result asked h⟩

/-- Two countdowns in a list: the first reaches its end at the limit, the second would
one step later. -/
def countdowns : Node := .array [.foreign "job" "31", .foreign "job" "32"]

/-- The second countdown is the fault of the list, and the first alone in a list stands
there as what it comes to. -/
theorem chain_limit_exact_countdowns :
    countdown.Comes countdowns [1] (.foreign "job" "32") ∧
      countdown.FailsWith countdowns (.endlessFallback "job") ∧
      countdown.Comes (.array [.foreign "job" "31"]) [0] (.foreign "job" "31") ∧
      countdown.toJson 34 (.array [.foreign "job" "31"]) =
        some (.ok (.array [.string "done"])) ∧
      countdown.toJson 34 (.foreign "job" "31") = some (.ok (.string "done")) := by
  have hfirst : ∀ w ∈ [Node.foreign "job" "31"], countdown.Encodes w := by
    intro w hw
    obtain rfl := List.mem_singleton.1 hw
    exact ⟨33, .string "done", rfl⟩
  have hcomes : countdown.Comes countdowns [1] (.foreign "job" "32") :=
    .item (k := 0) .self (Nat.zero_le _) rfl hfirst
  have hitself : countdown.behind 0 (.array [.foreign "job" "31"]) =
      some (.array ([] ++ .foreign "job" "31" :: [])) := rfl
  have halone : countdown.Comes (.array [.foreign "job" "31"]) [0] (.foreign "job" "31") :=
    .item .self (Nat.zero_le _) hitself (by simp)
  obtain ⟨herases, -, -, hendless, -, hfault, -⟩ := chain_limit_exact _ _ _ _ hcomes
  obtain ⟨asked, hasked, -⟩ := hendless (.foreign "job" "0") rfl rfl 0
  have hlist : countdown.toJson 34 (.array [.foreign "job" "31"]) =
      some (.ok (.array [.string "done"])) := rfl
  obtain ⟨-, -, -, -, -, -, hplaces⟩ := chain_limit_exact _ _ _ _ halone
  obtain ⟨own, hown, hplace⟩ := hplaces 34 _ hlist
  cases hplace
  refine ⟨hcomes, hfault _ ⟨0 + 1 + chainLimit, ?_⟩, halone, hlist, hown⟩
  rw [← herases, hasked]
  rfl

end Encoder

end DocStore
