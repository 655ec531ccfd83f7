import DocStore.Capture.Capture
import DocStore.Diagnosis.Search
import DocStore.Json.Writer
import DocStore.Log
import DocStore.Saving.Replace
/-!
# Saving

A node is encoded first, and only a node that encodes lets a file be
touched. One that does not is explained: the message names every offending
value. `Saver` is saving with a sink of its own.
-/

namespace DocStore

/-- **How to save.** By default the file is for everybody to read, holds plain
JSON only, is on disk before it replaces another, and goes into a directory
that is there. -/
structure SaveOptions where
  isPrivate : Bool := false
  encoder : Encoder := .strict
  durable : Bool := true
  createDirs : Bool := false

namespace SaveOptions

/-- A switch by its name. -/
def switchText (b : Bool) : String := if b then "true" else "false"

/-- The options spelled out, but for the encoder. -/
def description (o : SaveOptions) : String :=
  "SaveOptions \x7b private: " ++ switchText o.isPrivate ++
    ", durable: " ++ switchText o.durable ++
    ", create_dirs: " ++ switchText o.createDirs ++ ", .. \x7d"

/-- The replacement that puts a text at a path. -/
def replacement (o : SaveOptions) (path : RawText) (content : List UInt8) (tries : List Nat) :
    Replacement :=
  { path, content, tries, isPrivate := o.isPrivate, durable := o.durable,
    createDirs := o.createDirs }

end SaveOptions

/-- **The text of a node**, or its first fault, within the budget. -/
def Encoder.toText (e : Encoder) (budget : Nat) (n : Node) : Option (Except EncodeError String) :=
  (e.toJson budget n).map (·.map Json.pretty)

variable {σ : Type}

/-- **What came of a save**: the tree after it, the outcome and the log. -/
structure Saved (σ : Type) where
  tree : FileTree
  outcome : Except SaveError Unit
  log : List (Logged σ)

/-- A save that failed and left this tree. -/
def Saved.failed (current : σ) (t : FileTree) (e : SaveError) : Saved σ :=
  ⟨t, .error e, [⟨current, .notSaved e⟩]⟩

/-- Every save that cannot be encoded is told in these words. -/
def unencodableMessage (path : RawText) (rest : String) : String :=
  "Failed to serialize to JSON: " ++ path ++ ". " ++ rest

/-- Puts a text at a path. -/
def saveText (current : σ) (o : SaveOptions) (t : FileTree) (path : RawText) (text : String)
    (tries : List Nat) : Saved σ :=
  match (o.replacement path (Text.bytes text) tries).run t with
  | (t, .ok ()) => ⟨t, .ok (), [⟨current, .saved path text.utf8ByteSize⟩]⟩
  | (t, .error e) => .failed current t (.unwritable path e)

/-- What is said of a node that failed to encode: the findings, or the cause
where none was found. A part whose encoding does not return within the budget
counts as one that does not encode. -/
def explanation (o : SaveOptions) (budget : Nat) (n : Node) (cause : EncodeError) : String :=
  let report := o.encoder.diagnose budget n
  "Bad data at " ++ if report.isEmpty then cause.message else report.text

/-- **Saves a node**; `none` if the budget of the encoder ran out. `tries` are the
suffixes that chance gives the temporary file. Where nothing is said of them they
are taken in order. -/
def save (current : σ) (o : SaveOptions) (budget : Nat) (t : FileTree) (path : RawText) (n : Node)
    (tries : List Nat := t.suffixesInOrder) : Option (Saved σ) :=
  match o.encoder.toText budget n with
  | none => none
  | some (.ok text) => some (saveText current o t path text tries)
  | some (.error cause) =>
    let message := unencodableMessage path (explanation o budget n cause)
    some (.failed current t (.unencodable path message cause))

/-- **Saves a described value.** -/
def saveDescribed (current : σ) (o : SaveOptions) (budget : Nat) (t : FileTree) (path : RawText)
    (p : Program) (tries : List Nat := t.suffixesInOrder) : Option (Saved σ) :=
  match p.capture with
  | .ok n => save current o budget t path n tries
  | .error cause =>
    some (.failed current t (.unencodable path (unencodableMessage path cause.message) cause))

/-! ## Savers -/

/-- **A saver with its own sink.** -/
structure Saver (σ : Type) where
  sink : σ

namespace Saver

/-- The saver for the sink that is current where it is made. -/
def new (current : σ) : Saver σ := ⟨current⟩

/-- Where no saver is asked for in particular, it is a new one. -/
def default (current : σ) : Saver σ := new current

/-- Runs a save with the saver's sink in the place of the current one. -/
def within {ρ : Type} (s : Saver σ) (run : σ → ρ) (_current : σ) : ρ := run s.sink

/-- Saves a node and logs to the saver's sink. -/
def save (s : Saver σ) (current : σ) (o : SaveOptions) (budget : Nat) (t : FileTree)
    (path : RawText) (n : Node) (tries : List Nat := t.suffixesInOrder) : Option (Saved σ) :=
  s.within (fun current => DocStore.save current o budget t path n tries) current

/-- Saves a described value and logs to the saver's sink. -/
def saveDescribed (s : Saver σ) (current : σ) (o : SaveOptions) (budget : Nat) (t : FileTree)
    (path : RawText) (p : Program) (tries : List Nat := t.suffixesInOrder) : Option (Saved σ) :=
  s.within (fun current => DocStore.saveDescribed current o budget t path p tries) current

end Saver

end DocStore
