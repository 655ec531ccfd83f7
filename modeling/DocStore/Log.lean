import DocStore.Files.Failure
/-!
# Log events

Loading and saving report what happened as events. They log to the sink that
is current where they run; a loader or a saver has a sink of its own, which
is the current one while it runs.
-/

namespace DocStore

/-- How much an event matters. -/
inductive Level where
  | debug
  | error
  deriving DecidableEq, Repr

/-- **What happened.** -/
inductive Event where
  | defaulted (path : RawText)
  | notRead (path : RawText) (cause : IoError)
  | notParsed (path : RawText) (cause : ReadError)
  | saved (path : RawText) (bytes : Nat)
  | notSaved (failure : SaveError)

namespace Event

/-- Failures are errors, all else is detail. -/
def level : Event → Level
  | .defaulted _ | .saved .. => .debug
  | .notRead .. | .notParsed .. | .notSaved _ => .error

/-- **The fields of an event**, the message first. A value that could not be
encoded is all message. -/
def fields : Event → List (String × String)
  | .defaulted path => [("message", "json file not found, using default"), ("path", path)]
  | .notRead path cause =>
    [("message", "json file reading failed"), ("path", path), ("error", cause.message)]
  | .notParsed path cause =>
    [("message", "could not parse json content"), ("path", path), ("error", cause.message)]
  | .saved path bytes =>
    [("message", "saved json file"), ("path", path), ("bytes", bytes.repr)]
  | .notSaved (.unencodable _ message _) => [("message", message)]
  | .notSaved failure =>
    [("message", "saving json file failed"), ("path", failure.path), ("error", failure.message)]

end Event

/-- An event on its sink. -/
structure Logged (σ : Type) where
  sink : σ
  event : Event

end DocStore
