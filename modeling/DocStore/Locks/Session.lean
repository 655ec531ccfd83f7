import DocStore.Locks.Registry
/-!
# Sessions with locks

What one thread does with a registry: it enters and leaves locks, one inside
the other, acts on the paths it holds, and may panic and catch panics. A
panic leaves every lock on its way without taking it out. A thread that
asks for a lock it already holds waits for itself for ever. Everything that
happens to a lock is seen, so that the record tells at each moment what was
held and what was left behind.
-/

namespace DocStore

/-- **What a thread does**, with actions `α` of its own. -/
inductive LockStep (α : Type) where
  /-- Looks at the registry. -/
  | look
  /-- Holds the lock of a path meanwhile. -/
  | hold (path : RawText) (body : List (LockStep α))
  /-- Holds the lock of a path for one action. -/
  | act (path : RawText) (action : α)
  | panic (message : String)
  | catchPanic (body : List (LockStep α))
  /-- Goes on with a handle of its own on the same registry. -/
  | share (body : List (LockStep α))
  /-- Goes on with a new registry meanwhile. -/
  | renew (body : List (LockStep α))

/-- **What was seen**, with results `β` of actions. -/
inductive Sight (β : Type) where
  | looked
  | entered (path : RawText)
  | left (path : RawText)
  /-- A panic went through the holder of the path. -/
  | unwound (path : RawText)
  | acted (result : β)
  | caught (message : String)
  | calm

/-- A sight and the registry at that moment. -/
structure Moment (β : Type) where
  sight : Sight β
  registry : Registry

/-- How a body ended. -/
inductive Ending where
  | normal
  | panicked (message : String)
  /-- A lock was asked for by the thread that holds it. -/
  | stuck
  deriving DecidableEq

/-- The state of a thread: the world that actions change, the registry at hand,
the paths it holds in it, the latest first, and what was seen, likewise. -/
structure Session (σ β : Type) where
  world : σ
  registry : Registry := {}
  holding : List Path.Parts := []
  seen : List (Moment β) := []

namespace Session

variable {σ α β : Type}

/-- Notes a sight with the registry as it is. -/
def note (s : Session σ β) (sight : Sight β) : Session σ β :=
  { s with seen := ⟨sight, s.registry⟩ :: s.seen }

/-- Takes the lock of a path. -/
def take (s : Session σ β) (path : Path.Parts) : Session σ β :=
  { s with registry := s.registry.enter path, holding := path :: s.holding }

/-- Gives the latest lock back, in order. -/
def giveBack (s : Session σ β) (path : Path.Parts) : Session σ β :=
  { s with registry := s.registry.leave path, holding := s.holding.tail }

/-- Loses the latest lock to a panic. -/
def lose (s : Session σ β) (path : Path.Parts) : Session σ β :=
  { s with registry := s.registry.abandon path, holding := s.holding.tail }

mutual

/-- **Carries out a step.** -/
def carryOut (perform : α → σ → σ × β) (s : Session σ β) : LockStep α → Session σ β × Ending
  | .look => (s.note .looked, .normal)
  | .hold path body =>
    let parts := Path.parts path
    if parts ∈ s.holding then (s, .stuck)
    else
      match carryOutAll perform ((s.take parts).note (.entered path)) body with
      | (s, .normal) => ((s.giveBack parts).note (.left path), .normal)
      | (s, .panicked message) => ((s.lose parts).note (.unwound path), .panicked message)
      | (s, .stuck) => (s, .stuck)
  | .act path action =>
    let parts := Path.parts path
    if parts ∈ s.holding then (s, .stuck)
    else
      let s := s.take parts
      let (world, result) := perform action s.world
      ((({ s with world }).giveBack parts).note (.acted result), .normal)
  | .panic message => (s, .panicked message)
  | .catchPanic body =>
    match carryOutAll perform s body with
    | (s, .normal) => (s.note .calm, .normal)
    | (s, .panicked message) => (s.note (.caught message), .normal)
    | (s, .stuck) => (s, .stuck)
  | .share body => carryOutAll perform s body
  | .renew body =>
    let (after, ending) := carryOutAll perform { s with registry := {}, holding := [] } body
    ({ after with registry := s.registry, holding := s.holding }, ending)

/-- Carries out steps in order, up to the first that does not end normally. -/
def carryOutAll (perform : α → σ → σ × β) (s : Session σ β) : List (LockStep α) → Session σ β × Ending
  | [] => (s, .normal)
  | step :: rest =>
    match carryOut perform s step with
    | (s, .normal) => carryOutAll perform s rest
    | (s, ending) => (s, ending)

end

end Session

end DocStore
