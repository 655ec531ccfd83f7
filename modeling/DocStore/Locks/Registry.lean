import DocStore.Files.Path
/-!
# Path locks

A registry holds a lock for each path that somebody uses, so that saves to
one path happen one at a time. Paths are compared part by part and never
followed. Whoever is done with a path takes its lock out again, unless
another waits for it; a holder that fails leaves its lock behind until the
path is next used and left in order.
-/

namespace DocStore

/-- **The locks in use**, each with the number of those who hold or await it. -/
structure Registry where
  locks : List (Path.Parts × Nat) := []
  deriving DecidableEq

namespace Registry

/-- How many locks the registry has. -/
def size (r : Registry) : Nat := r.locks.length

/-- Whether the registry has no lock. -/
def isEmpty (r : Registry) : Bool := r.locks.isEmpty

/-- The paths of the locks. -/
def paths (r : Registry) : List Path.Parts := r.locks.map (·.1)

/-- How many hold or await the lock of a path. -/
def users (r : Registry) (path : Path.Parts) : Nat := (r.locks.lookup path).getD 0

/-- Adds a user to the lock of a path, with a new lock if there is none. -/
def enter (r : Registry) (path : Path.Parts) : Registry :=
  if path ∈ r.paths then
    ⟨r.locks.map fun (p, n) => if p = path then (p, n + 1) else (p, n)⟩
  else ⟨r.locks ++ [(path, 1)]⟩

/-- Takes a user from the lock of a path, which stays. -/
def abandon (r : Registry) (path : Path.Parts) : Registry :=
  ⟨r.locks.map fun (p, n) => if p = path then (p, n - 1) else (p, n)⟩

/-- Takes a user from the lock of a path, and the lock if that was the last. -/
def leave (r : Registry) (path : Path.Parts) : Registry :=
  ⟨(r.abandon path).locks.filter fun (p, n) => p ≠ path || n ≠ 0⟩

end Registry

end DocStore
