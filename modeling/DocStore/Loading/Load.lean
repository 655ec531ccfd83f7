import DocStore.Files.Operations
import DocStore.Log
import DocStore.Typed.Decode
/-!
# Loading

A file that is not there gives the default; that is no failure. Anything
else that is wrong with the path or the text is. Loading never changes the
tree. `Loader` is loading with a sink of its own.
-/

namespace DocStore

variable {α σ : Type} [Decodable α]

/-- **What came of a load**: the outcome and the log. -/
structure Loaded (σ α : Type) where
  outcome : Except LoadError α
  log : List (Logged σ)

/-- **Loads a value**, `default` standing in for a missing file. -/
def load (current : σ) (t : FileTree) (path : RawText) (default : α) : Loaded σ α :=
  match t.read path with
  | .ok bytes =>
    match decode α bytes with
    | .ok v => ⟨.ok v, []⟩
    | .error e => ⟨.error (.unparsable path e), [⟨current, .notParsed path e⟩]⟩
  | .error e =>
    if e.kind = .notFound then ⟨.ok default, [⟨current, .defaulted path⟩]⟩
    else ⟨.error (.unreadable path e), [⟨current, .notRead path e⟩]⟩

/-- Loads a value of a type that has a default of its own. -/
def loadOrDefault [Inhabited α] (current : σ) (t : FileTree) (path : RawText) : Loaded σ α :=
  load current t path default

/-- Loads any JSON value; the default for want of one is an empty object. -/
def loadDocument (current : σ) (t : FileTree) (path : RawText) (default : Option Json) :
    Loaded σ Json :=
  load current t path (default.getD (.object []))

/-! ## Loaders -/

/-- **A loader with its own sink.** -/
structure Loader (σ : Type) where
  sink : σ

namespace Loader

/-- The loader for the sink that is current where it is made. -/
def new (current : σ) : Loader σ := ⟨current⟩

/-- Where no loader is asked for in particular, it is a new one. -/
def default (current : σ) : Loader σ := new current

/-- Runs a load with the loader's sink in the place of the current one. -/
def within {ρ : Type} (l : Loader σ) (run : σ → ρ) (_current : σ) : ρ := run l.sink

/-- Loads a value and logs to the loader's sink. -/
def load (l : Loader σ) (current : σ) (t : FileTree) (path : RawText) (default : α) :
    Loaded σ α :=
  l.within (fun current => DocStore.load current t path default) current

/-- Loads a value of a type with a default and logs to the loader's sink. -/
def loadOrDefault [Inhabited α] (l : Loader σ) (current : σ) (t : FileTree) (path : RawText) :
    Loaded σ α :=
  l.within (fun current => DocStore.loadOrDefault current t path) current

/-- Loads any JSON value and logs to the loader's sink. -/
def loadDocument (l : Loader σ) (current : σ) (t : FileTree) (path : RawText)
    (default : Option Json) : Loaded σ Json :=
  l.within (fun current => DocStore.loadDocument current t path default) current

end Loader

end DocStore
