import DocStore.Proofs.Encoding.Substitutes
import Mathlib.Control.Monad.Writer
/-!
# What an encoder is asked

`inquireFrom` is encoding with each question noted. It gets at the encoder
through `ask` alone, and the notes aside it comes to what `encode` comes to
(`inquire_eq_toJson`). So the notes say how often an encoder is consulted, and
about what: first about the nodes that stand in a row before what a value goes by,
each once and in order (`inquireFrom_of_behind`).
-/

namespace DocStore

namespace Encoder

variable {α β : Type} {e : Encoder} {n m substitute : Node} {budget chain k : Nat}

/-! ## Noting questions -/

/-- **Encoding that notes the nodes it asks about.** -/
abbrev Inquiry (α : Type) := ExceptT EncodeError (WriterT (List Node) Option) α

/-- What an inquiry comes to, and the nodes it asked about, in order. -/
def Inquiry.outcome (x : Inquiry α) : Option (Except EncodeError α × List Node) :=
  WriterT.run x.run

/-- **The one question there is**: what a node goes by. -/
def ask (e : Encoder) (n : Node) : Inquiry (Option Node) :=
  ExceptT.mk (WriterT.mk (some (.ok (e.fallback n), [n])))

/-- Encodes elements in order. -/
def inquireItems (inquire : Node → Inquiry Json) : List Node → Inquiry (List Json)
  | [] => pure []
  | v :: rest => do
    let first ← inquire v
    let others ← inquireItems inquire rest
    pure (first :: others)

/-- Encodes entries in order, each name before its value. -/
def inquireEntries (inquire : Node → Inquiry Json) :
    (taken : List String) → List (Key × Node) → Inquiry (List (String × Json))
  | _, [] => pure []
  | taken, (key, v) :: rest =>
    match key.name with
    | .error e => throw e
    | .ok name =>
      if name ∈ taken then throw (.invalidKey name)
      else do
        let first ← inquire v
        let others ← inquireEntries inquire (name :: taken) rest
        pure ((name, first) :: others)

/-- **Encodes a node** that stands `chain` substitutes behind the last value with a
JSON form, and puts all questions through `ask`. -/
def inquireFrom (ask : Node → Inquiry (Option Node)) : (budget chain : Nat) → Node → Inquiry Json
  | 0, _, _ => ExceptT.mk (WriterT.mk none)
  | budget + 1, chain, n =>
    match n with
    | .null => pure .null
    | .bool b => pure (.bool b)
    | .int i => pure (.number (.ofInt64 i))
    | .uint u => pure (.number (.ofUInt64 u))
    | .float x =>
      if h : x.isFinite = true then pure (.number (.float x h)) else throw (.notFinite x)
    | .string s => pure (.string s)
    | .array items => do
      let items ← inquireItems (inquireFrom ask budget 0) items
      pure (.array items)
    | .object entries => do
      let members ← inquireEntries (inquireFrom ask budget 0) [] entries
      pure (.object members)
    | n =>
      if chainLimit ≤ chain then throw (.endlessFallback n.typeName)
      else do
        let substitute? ← ask n
        match substitute? with
        | some substitute => inquireFrom ask budget (chain + 1) substitute
        | none => throw (.unsupported n.typeName)

/-- **The JSON form of a node or the first fault**, with the nodes that the encoder was
asked about. -/
def inquire (e : Encoder) (budget : Nat) (n : Node) :
    Option (Except EncodeError Json × List Node) :=
  (inquireFrom e.ask budget 0 n).outcome

/-! ## One inquiry after another -/

namespace Inquiry

theorem outcome_bind (x : Inquiry α) (next : α → Inquiry β) :
    (x >>= next).outcome =
      match x.outcome with
      | none => none
      | some (.error fault, asked) => some (.error fault, asked)
      | some (.ok a, asked) =>
        (next a).outcome.map fun (result, later) => (result, asked ++ later) := by
  have hbind : (x >>= next).outcome = x.outcome.bind fun (result, asked) =>
      (match result with
        | .ok a => (next a).outcome
        | .error fault => some (.error fault, [])).map
          fun (result, later) => (result, asked ++ later) := by
    unfold outcome
    rw [ExceptT.run_bind]
    refine congrArg (Option.bind _) (funext fun (result, asked) => ?_)
    cases result <;> rfl
  rw [hbind]
  rcases x.outcome with - | ⟨fault | a, asked⟩
  · rfl
  · simp
  · rfl

/-- Two inquiries after each other give something only if the first does. -/
theorem outcome_bind_eq_some {x : Inquiry α} {next : α → Inquiry β}
    {result : Except EncodeError β} {asked : List Node} :
    (x >>= next).outcome = some (result, asked) ↔
      (∃ fault, x.outcome = some (.error fault, asked) ∧ result = .error fault) ∨
      ∃ a first later, x.outcome = some (.ok a, first) ∧
        (next a).outcome = some (result, later) ∧ asked = first ++ later := by
  rw [outcome_bind]
  rcases x.outcome with - | ⟨fault | a, first⟩
  · simp
  · constructor
    · rintro ⟨⟩
      exact Or.inl ⟨fault, rfl, rfl⟩
    · rintro (⟨_, ⟨⟩, rfl⟩ | ⟨_, _, _, ⟨⟩, -, -⟩)
      rfl
  · constructor
    · intro h
      obtain ⟨⟨_, later⟩, hnext, ⟨⟩⟩ := Option.map_eq_some_iff.1 h
      exact Or.inr ⟨a, first, later, rfl, hnext, rfl⟩
    · rintro (⟨_, ⟨⟩, -⟩ | ⟨_, _, later, ⟨⟩, hnext, rfl⟩)
      exact Option.map_eq_some_iff.2 ⟨(result, later), hnext, rfl⟩

/-- **The inquiry comes to what the attempt comes to**, its notes aside. -/
def Matches (x : Inquiry α) (y : Attempt α) : Prop := x.outcome.map (·.1) = y.run

theorem Matches.bind {x : Inquiry α} {y : Attempt α} {next : α → Inquiry β}
    {next' : α → Attempt β} (h : x.Matches y) (hnext : ∀ a, (next a).Matches (next' a)) :
    (x >>= next).Matches (y >>= next') := by
  rw [Matches, outcome_bind, ExceptT.run_bind, ← h]
  rcases x.outcome with - | ⟨fault | a, asked⟩
  · rfl
  · rfl
  · rw [Option.map_map]
    exact hnext a

end Inquiry

/-! ## The notes change nothing -/

section Matching

variable {f : Node → Inquiry Json} {g : Node → Attempt Json}

theorem inquireItems_matches (h : ∀ n, (f n).Matches (g n)) (items : List Node) :
    (inquireItems f items).Matches (encodeItems g items) := by
  induction items with
  | nil => rfl
  | cons v rest ih =>
    rw [inquireItems, encodeItems]
    exact (h v).bind fun first => ih.bind fun others => rfl

theorem inquireEntries_matches (h : ∀ n, (f n).Matches (g n)) (taken : List String)
    (entries : List (Key × Node)) :
    (inquireEntries f taken entries).Matches (encodeEntries g taken entries) := by
  induction entries generalizing taken with
  | nil => rfl
  | cons entry rest ih =>
    obtain ⟨key, v⟩ := entry
    rw [inquireEntries, encodeEntries]
    cases key.name with
    | error fault => rfl
    | ok name =>
      dsimp only
      split
      · rfl
      · exact (h v).bind fun first => (ih _).bind fun others => rfl

theorem inquireFrom_of_not_native (hnative : n.isNative = false) (budget chain : Nat) :
    inquireFrom e.ask (budget + 1) chain n =
      if chainLimit ≤ chain then throw (.endlessFallback n.typeName)
      else e.ask n >>= fun
        | some substitute => inquireFrom e.ask budget (chain + 1) substitute
        | none => throw (.unsupported n.typeName) := by
  cases n <;> first | rfl | cases hnative

theorem inquireFrom_matches (budget chain : Nat) (n : Node) :
    (inquireFrom e.ask budget chain n).Matches (e.encode budget chain n) := by
  induction budget generalizing chain n with
  | zero => rfl
  | succ budget ih =>
    cases n with
    | null | bool _ | int _ | uint _ | string _ => rfl
    | float x =>
      rw [inquireFrom, encode]
      split <;> rfl
    | array items => exact (inquireItems_matches (ih 0) items).bind fun _ => rfl
    | object entries => exact (inquireEntries_matches (ih 0) [] entries).bind fun _ => rfl
    | set _ | timestamp _ | duration _ | bytes _ | record _ _ | foreign _ _ =>
      rw [inquireFrom_of_not_native rfl, encode_of_not_native rfl]
      split
      · rfl
      -- asking always has an answer, so the bind goes on with it
      · rw [Inquiry.Matches, Inquiry.outcome_bind]
        dsimp only [ask, Inquiry.outcome, ExceptT.run_mk, WriterT.run_mk]
        rw [Option.map_map]
        cases e.fallback _ with
        | none => rfl
        | some substitute => exact ih (chain + 1) substitute

end Matching

/-- **Noting the questions changes nothing**: an inquiry comes to the JSON form of the
node or to its first fault. -/
theorem inquire_eq_toJson (e : Encoder) (budget : Nat) (n : Node) :
    (e.inquire budget n).map (·.1) = e.toJson budget n :=
  inquireFrom_matches budget 0 n

/-! ## What is asked about values in a row -/

/-- The nodes that stand in a row, from a node on. -/
def row (e : Encoder) (k : Nat) (n : Node) : List Node :=
  (List.range k).filterMap fun i => e.behind i n

theorem row_succ (hnative : n.isNative = false) (hsubstitute : e.fallback n = some substitute)
    (k : Nat) : e.row (k + 1) n = n :: e.row k substitute := by
  have hbehind : ∀ i, e.behind (i + 1) n = e.behind i substitute := fun i => by
    rw [behind, if_neg (by simp [hnative]), hsubstitute, Option.bind_some]
  rw [row, List.range_succ_eq_map, List.filterMap_cons, List.filterMap_map]
  exact congrArg (n :: ·) (List.filterMap_congr fun i _ => hbehind i)

/-- **Where so many nodes stand in a row, each has its place.** -/
theorem row_of_behind (h : e.behind k n = some m) :
    (e.row k n).length = k ∧ ∀ i < k, (e.row k n)[i]? = e.behind i n := by
  induction k generalizing n with
  | zero => exact ⟨rfl, fun i hi => absurd hi (Nat.not_lt_zero i)⟩
  | succ k ih =>
    obtain ⟨hnative, substitute, hsubstitute, hbehind⟩ := behind_succ.1 h
    obtain ⟨hlength, hplaces⟩ := ih hbehind
    rw [row_succ hnative hsubstitute]
    refine ⟨congrArg (· + 1) hlength, fun i hi => ?_⟩
    cases i with
    | zero => rfl
    | succ i =>
      rw [List.getElem?_cons_succ, hplaces i (by omega), behind, if_neg (by simp [hnative]),
        hsubstitute, Option.bind_some]

/-- **A value with a substitute is asked about once**, and the substitute goes on. -/
theorem inquireFrom_of_substitute (hnative : n.isNative = false)
    (hsubstitute : e.fallback n = some substitute) (hchain : chain < chainLimit) (budget : Nat) :
    (inquireFrom e.ask (budget + 1) chain n).outcome =
      (inquireFrom e.ask budget (chain + 1) substitute).outcome.map
        fun (result, asked) => (result, n :: asked) := by
  rw [inquireFrom_of_not_native hnative, if_neg (Nat.not_le.2 hchain), Inquiry.outcome_bind]
  dsimp only [ask, Inquiry.outcome, ExceptT.run_mk, WriterT.run_mk]
  rw [hsubstitute]
  rfl

/-- **Encoding a value asks about the row before what stands behind it**, and then
encodes that, as long as the limit allows. -/
theorem inquireFrom_of_behind (h : e.behind k n = some m) (hlimit : chain + k ≤ chainLimit)
    (budget : Nat) :
    (inquireFrom e.ask (budget + k) chain n).outcome =
      (inquireFrom e.ask budget (chain + k) m).outcome.map
        fun (result, asked) => (result, e.row k n ++ asked) := by
  induction k generalizing n chain with
  | zero =>
    obtain rfl := Option.some.inj h
    exact Option.map_id_apply.symm
  | succ k ih =>
    obtain ⟨hnative, substitute, hsubstitute, hbehind⟩ := behind_succ.1 h
    rw [← Nat.add_assoc, inquireFrom_of_substitute hnative hsubstitute (by omega),
      ih hbehind (by omega), row_succ hnative hsubstitute, Option.map_map, Nat.add_right_comm,
      Nat.add_assoc]
    rfl

end Encoder

end DocStore
