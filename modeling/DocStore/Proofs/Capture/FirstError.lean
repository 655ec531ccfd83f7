import DocStore.Capture.Capture
import Mathlib.Data.List.Basic
/-!
# What makes a capture fail

A description is carried out call by call. Its calls are listed here in the order in
which they are made, those of what is nested in it among them, and each is judged by the
calls in front of it alone: an error raised by the description goes wrong wherever it
stands, and a value of a map where no key waits for one. Capture gives a node exactly if
no call goes wrong, and otherwise the error of the first that does
(`capture_first_error`). Whatever else is said, it keeps.
-/

namespace DocStore

/-- **A call that is made while a value is described.** -/
inductive DescriptionCall where
  /-- A scalar, or the beginning or the end of what is no map. -/
  | other
  | openMap
  /-- A key of the innermost map, once it has been described. -/
  | key
  /-- A value of the innermost map, before it is described. -/
  | value
  | closeMap
  /-- An error that the description raises. -/
  | fail (message : String)
  deriving DecidableEq, Repr

namespace DescriptionCall

/-- **The maps under way after a call**, the innermost first: for each whether a key
waits for its value. -/
def after (maps : List Bool) : DescriptionCall → List Bool
  | .openMap => false :: maps
  | .key => true :: maps.tail
  | .value => false :: maps.tail
  | .closeMap => maps.tail
  | .other | .fail _ => maps

/-- **What is wrong with a call** while these maps are under way. -/
def complaint? (maps : List Bool) : DescriptionCall → Option String
  | .fail message => some message
  | .value =>
    if maps.head? = some true then none else some "serialize_value called before serialize_key"
  | _ => none

end DescriptionCall

mutual

/-- **The calls of a description**, in the order in which they are made. -/
def Program.calls : Program → List DescriptionCall
  | .present inner | .wrapper _ inner | .wrapperVariant _ _ inner => .other :: inner.calls
  | .list _ items | .tuple items | .tupleProduct _ items | .tupleVariant _ _ items =>
    .other :: (Program.callsOfItems items ++ [.other])
  | .map _ calls => .openMap :: (Program.callsOfMap calls ++ [.closeMap])
  | .product _ fields | .productVariant _ _ fields =>
    .other :: (Program.callsOfFields fields ++ [.other])
  | .fail message => [.fail message]
  | _ => [.other]

/-- The calls of elements. -/
def Program.callsOfItems : List Program → List DescriptionCall
  | [] => []
  | p :: rest => p.calls ++ Program.callsOfItems rest

/-- The calls inside a map. -/
def Program.callsOfMap : List MapCall → List DescriptionCall
  | [] => []
  | .key p :: rest => p.calls ++ .key :: Program.callsOfMap rest
  | .value p :: rest => .value :: (p.calls ++ Program.callsOfMap rest)

/-- The calls of fields; a skipped one makes none. -/
def Program.callsOfFields : List Field → List DescriptionCall
  | [] => []
  | .skipped _ :: rest => Program.callsOfFields rest
  | .given _ p :: rest => p.calls ++ Program.callsOfFields rest

end

/-! ## The first complaint -/

/-- **The first complaint** about calls that are made one after the other. -/
def firstComplaint? : (maps : List Bool) → List DescriptionCall → Option String
  | _, [] => none
  | maps, call :: rest => (call.complaint? maps).or (firstComplaint? (call.after maps) rest)

/-- **A call goes wrong with a message**, behind the calls in front of it. -/
def GoesWrong (maps : List Bool) (front : List DescriptionCall) (call : DescriptionCall)
    (message : String) : Prop :=
  call.complaint? (front.foldl DescriptionCall.after maps) = some message

variable {maps : List Bool} {calls : List DescriptionCall} {message : String}

theorem firstComplaint?_eq_none_iff :
    firstComplaint? maps calls = none ↔
      ∀ front call rest, calls = front ++ call :: rest → ∀ message,
        ¬ GoesWrong maps front call message := by
  induction calls generalizing maps with
  | nil => simp [firstComplaint?]
  | cons call others ih =>
    rw [firstComplaint?, Option.or_eq_none_iff, ih]
    constructor
    · rintro ⟨hcall, hothers⟩ front call' rest heq message hwrong
      cases front with
      | nil =>
        obtain ⟨rfl, -⟩ := List.cons.inj heq
        rw [GoesWrong, List.foldl_nil, hcall] at hwrong
        cases hwrong
      | cons first front =>
        obtain ⟨rfl, hrest⟩ := List.cons.inj heq
        exact hothers front call' rest hrest message hwrong
    · intro h
      refine ⟨?_, fun front call' rest heq message hwrong => ?_⟩
      · exact Option.eq_none_iff_forall_ne_some.2 fun message => h [] call others rfl message
      · exact h (call :: front) call' rest (by rw [heq, List.cons_append]) message hwrong

/-- **The first complaint is about a call that goes wrong, behind calls that do not.** -/
theorem firstComplaint?_eq_some_iff :
    firstComplaint? maps calls = some message ↔
      ∃ front call rest, calls = front ++ call :: rest ∧
        firstComplaint? maps front = none ∧ GoesWrong maps front call message := by
  induction calls generalizing maps with
  | nil => simp [firstComplaint?]
  | cons call others ih =>
    rw [firstComplaint?, Option.or_eq_some_iff, ih]
    constructor
    · rintro (hcall | ⟨hcall, front, call', rest, rfl, hfront, hwrong⟩)
      · exact ⟨[], call, others, rfl, rfl, hcall⟩
      · refine ⟨call :: front, call', rest, rfl, ?_, hwrong⟩
        rw [firstComplaint?, hcall, Option.none_or, hfront]
    · rintro ⟨front, call', rest, heq, hfront, hwrong⟩
      cases front with
      | nil =>
        obtain ⟨rfl, -⟩ := List.cons.inj heq
        exact Or.inl hwrong
      | cons first front =>
        obtain ⟨rfl, rfl⟩ := List.cons.inj heq
        rw [firstComplaint?, Option.or_eq_none_iff] at hfront
        exact Or.inr ⟨hfront.1, front, call', rest, rfl, hfront.2, hwrong⟩

/-! ## Calls and what comes of them -/

/-- **Calls carry out a capture.** Either it gives something, and the calls lead from one
state of the maps to another without a complaint; or it fails with the first complaint
about them. Whatever maps are further out and whatever calls follow. -/
def CarryOut {α : Type} (maps maps' : List Bool) (calls : List DescriptionCall)
    (result : Except EncodeError α) : Prop :=
  (∃ a, result = .ok a ∧ ∀ outer rest,
    firstComplaint? (maps ++ outer) (calls ++ rest) = firstComplaint? (maps' ++ outer) rest) ∨
  (∃ message, result = .error (.custom message) ∧ ∀ outer rest,
    firstComplaint? (maps ++ outer) (calls ++ rest) = some message)

namespace CarryOut

variable {α β : Type} {a : α} {x : Except EncodeError α} {k : α → Except EncodeError β}
  {maps' maps'' : List Bool} {calls' : List DescriptionCall}

theorem nil : CarryOut maps maps [] (.ok a) := Or.inl ⟨a, rfl, fun _ _ => rfl⟩

/-- A call without a complaint in front of the others. -/
theorem cons {call : DescriptionCall} (hcall : ∀ outer, call.complaint? (maps ++ outer) = none ∧
    call.after (maps ++ outer) = maps' ++ outer) (h : CarryOut maps' maps'' calls x) :
    CarryOut maps maps'' (call :: calls) x := by
  have hstep : ∀ outer rest, firstComplaint? (maps ++ outer) (call :: calls ++ rest) =
      firstComplaint? (maps' ++ outer) (calls ++ rest) := by
    intro outer rest
    rw [List.cons_append, firstComplaint?, (hcall outer).1, (hcall outer).2, Option.none_or]
  rcases h with ⟨a, hx, h⟩ | ⟨message, hx, h⟩
  · exact Or.inl ⟨a, hx, fun outer rest => (hstep outer rest).trans (h outer rest)⟩
  · exact Or.inr ⟨message, hx, fun outer rest => (hstep outer rest).trans (h outer rest)⟩

theorem other (h : CarryOut maps maps' calls x) : CarryOut maps maps' (.other :: calls) x :=
  h.cons fun _ => ⟨rfl, rfl⟩

/-- **One capture after the other** carries out the calls of both in order. -/
theorem bind (h : CarryOut maps maps' calls x)
    (hk : ∀ a, CarryOut maps' maps'' calls' (k a)) :
    CarryOut maps maps'' (calls ++ calls') (x >>= k) := by
  rcases h with ⟨a, rfl, h⟩ | ⟨message, rfl, h⟩
  · rcases hk a with ⟨b, hb, h'⟩ | ⟨message, hmessage, h'⟩
    · exact Or.inl ⟨b, hb, fun outer rest => by rw [List.append_assoc, h, h']⟩
    · exact Or.inr ⟨message, hmessage, fun outer rest => by rw [List.append_assoc, h, h']⟩
  · exact Or.inr ⟨message, rfl, fun outer rest => by rw [List.append_assoc, h]⟩

/-- What is made of the result in the end makes no call. -/
theorem map (h : CarryOut maps maps' calls x) (f : α → β) :
    CarryOut maps maps' calls (x >>= fun a => pure (f a)) := by
  have hbind := h.bind fun a => (nil : CarryOut maps' maps' [] (.ok (f a)))
  rwa [List.append_nil] at hbind

/-- The maps further out are left as they are. -/
theorem inside (h : CarryOut [] [] calls x) (maps : List Bool) : CarryOut maps maps calls x :=
  h.imp (fun ⟨a, hx, h⟩ => ⟨a, hx, fun outer => h (maps ++ outer)⟩)
    fun ⟨message, hx, h⟩ => ⟨message, hx, fun outer => h (maps ++ outer)⟩

/-- A result that is final when the last call is made. -/
theorem concat {call : DescriptionCall} (h : CarryOut maps maps' calls x)
    (hcall : ∀ outer, call.complaint? (maps' ++ outer) = none ∧
      call.after (maps' ++ outer) = maps'' ++ outer) :
    CarryOut maps maps'' (calls ++ [call]) x := by
  have hbind := h.bind fun a => (nil : CarryOut maps'' maps'' [] (.ok a)).cons hcall
  rwa [show (x >>= fun a => Except.ok a) = x from bind_pure x] at hbind

end CarryOut

/-- Whether a key waits behind calls inside a map, by whether one waited in front of them. -/
def waitsAfter : Bool → List MapCall → Bool
  | waits, [] => waits
  | _, .key _ :: rest => waitsAfter true rest
  | _, .value _ :: rest => waitsAfter false rest

mutual

/-- **Capture carries out the calls of a description.** -/
theorem carryOut_capture (p : Program) : CarryOut [] [] p.calls p.capture := by
  match p with
  | .present inner | .wrapper _ inner => exact (carryOut_capture inner).other
  | .wrapperVariant _ _ inner => exact ((carryOut_capture inner).map _).other
  | .list _ items | .tuple items | .tupleProduct _ items | .tupleVariant _ _ items =>
    exact (((carryOut_captureItems items).map _).concat fun _ => ⟨rfl, rfl⟩).other
  | .map _ calls =>
    -- the map is open while its calls are made, and closed behind them
    exact (((carryOut_captureCalls none calls).map _).concat fun _ => ⟨rfl, rfl⟩).cons
      fun _ => ⟨rfl, rfl⟩
  | .product _ fields | .productVariant _ _ fields =>
    exact (((carryOut_captureFields fields).map _).concat fun _ => ⟨rfl, rfl⟩).other
  | .fail message => exact Or.inr ⟨message, rfl, fun _ _ => rfl⟩
  | .bool _ | .integer _ _ | .float32 _ | .float64 _ | .char _ | .text _ | .bytes _ | .absent
  | .unit | .unitProduct _ | .unitVariant _ _ => exact CarryOut.nil.other

theorem carryOut_captureItems (items : List Program) :
    CarryOut [] [] (Program.callsOfItems items) (Program.captureItems items) := by
  match items with
  | [] => exact .nil
  | p :: rest => exact (carryOut_capture p).bind fun _ => (carryOut_captureItems rest).map _

theorem carryOut_captureCalls (pending : Option Key) (calls : List MapCall) :
    CarryOut [pending.isSome] [waitsAfter pending.isSome calls] (Program.callsOfMap calls)
      (Program.captureCalls pending calls) := by
  match calls with
  | [] => exact .nil
  | .key p :: rest =>
    -- the key waits once it has been described
    have hkey := (carryOut_capture p).inside [pending.isSome]
    refine hkey.bind fun node => ?_
    exact (carryOut_captureCalls (some node.toKey) rest).cons fun _ => ⟨rfl, rfl⟩
  | .value p :: rest =>
    match pending with
    | none =>
      -- the complaint is about the call, and the value is not described any more
      exact Or.inr ⟨_, rfl, fun _ _ => rfl⟩
    | some key =>
      -- the call takes the key away before the value is described
      have hvalue := (carryOut_capture p).inside [false]
      have hrest := carryOut_captureCalls none rest
      exact (hvalue.bind fun _ => hrest.map _).cons fun _ => ⟨rfl, rfl⟩

theorem carryOut_captureFields (fields : List Field) :
    CarryOut [] [] (Program.callsOfFields fields) (Program.captureFields fields) := by
  match fields with
  | [] => exact .nil
  | .skipped _ :: rest => exact carryOut_captureFields rest
  | .given _ p :: rest =>
    exact (carryOut_capture p).bind fun _ => (carryOut_captureFields rest).map _

end

/-- **Only a description can make a capture fail.** A capture fails exactly if one of the
calls of the description goes wrong, and always with the message of the first that does;
otherwise it gives a node. -/
theorem capture_first_error (p : Program) :
    ((∃ error, p.capture = .error error) ↔
      ∃ front call rest message, p.calls = front ++ call :: rest ∧
        GoesWrong [] front call message) ∧
    (∀ error, p.capture = .error error ↔
      ∃ front call rest message, p.calls = front ++ call :: rest ∧
        (∀ before earlier between, front = before ++ earlier :: between →
          ∀ message, ¬ GoesWrong [] before earlier message) ∧
        GoesWrong [] front call message ∧ error = .custom message) ∧
    ((∃ node, p.capture = .ok node) ↔
      ∀ front call rest, p.calls = front ++ call :: rest →
        ∀ message, ¬ GoesWrong [] front call message) := by
  rcases carryOut_capture p with ⟨node, hnode, hcalls⟩ | ⟨message, hmessage, hcalls⟩
  · have hnone : firstComplaint? [] p.calls = none := by simpa [firstComplaint?] using hcalls [] []
    have hright := firstComplaint?_eq_none_iff.1 hnone
    refine ⟨⟨fun ⟨_, h⟩ => ?_, fun ⟨front, call, rest, message, heq, hwrong⟩ => ?_⟩,
      fun error => ⟨fun h => ?_, fun ⟨front, call, rest, message, heq, _, hwrong, _⟩ => ?_⟩,
      ⟨fun _ => hright, fun _ => ⟨node, hnode⟩⟩⟩
    · rw [hnode] at h; cases h
    · exact absurd hwrong (hright front call rest heq message)
    · rw [hnode] at h; cases h
    · exact absurd hwrong (hright front call rest heq message)
  · have hsome : firstComplaint? [] p.calls = some message := by simpa using hcalls [] []
    obtain ⟨front, call, rest, heq, hfront, hwrong⟩ := firstComplaint?_eq_some_iff.1 hsome
    refine ⟨⟨fun _ => ⟨front, call, rest, message, heq, hwrong⟩, fun _ => ⟨_, hmessage⟩⟩,
      fun error => ⟨fun h => ?_, ?_⟩,
      ⟨fun ⟨_, h⟩ => ?_, fun h => absurd hwrong (h front call rest heq message)⟩⟩
    · have hright := firstComplaint?_eq_none_iff.1 hfront
      exact ⟨front, call, rest, message, heq, hright, hwrong,
        Except.error.inj (h.symm.trans hmessage)⟩
    · -- the first complaint is one message, so no two calls are the first that goes wrong
      rintro ⟨front', call', rest', message', heq', hright', hwrong', rfl⟩
      have hsome' := firstComplaint?_eq_some_iff.2
        ⟨front', call', rest', heq', firstComplaint?_eq_none_iff.2 hright', hwrong'⟩
      rw [hmessage, Option.some.inj (hsome.symm.trans hsome')]
    · rw [hmessage] at h; cases h

/-- The second value has no key, and that is found before the value raises its own error. -/
example : (Program.map none [.key (.text "a"), .value .unit, .value (.fail "late")]).capture =
    .error (.custom "serialize_value called before serialize_key") := rfl

end DocStore
