import DocStore.Files.Operations
/-!
# Replacing a file as a whole

A replacement writes the new content to a temporary file beside the target
and renames it over the target as its last act. `Replacement.step` is one
act of it on the tree that all share, and `Phase.fail` is what a failure of
that act leads to: past the creation of the temporary file every way out
goes through its removal. `Replacement.run` takes all steps without a
failure from outside.
-/

namespace DocStore

/-- **What is to replace what**, and how. -/
structure Replacement where
  path : RawText
  content : List UInt8
  /-- The suffixes that the temporary file will be tried with, in this order.
  They are drawn at random, and only so many: all that chance decides is here. -/
  tries : List Nat
  /-- Keep the file from everybody but its owner. -/
  isPrivate : Bool := false
  /-- Have the content on disk before the rename. -/
  durable : Bool := true
  /-- Create the directory of the target if it is missing. -/
  createDirs : Bool := false

/-- The temporary file of a replacement: its path, and the file behind it. -/
structure Temporary where
  path : RawText
  location : Location
  deriving DecidableEq

/-- **How far a replacement has come.** -/
inductive Phase where
  | preparing
  | creating
  | writing (temp : Temporary) (left : List UInt8)
  | syncing (temp : Temporary)
  | opening (temp : Temporary)
  | renaming (temp : Temporary)
  | removing (temp : Temporary) (outcome : Except IoError Unit)
  | finished (outcome : Except IoError Unit)

namespace Phase

/-- Where a failure of the act at hand leads. A failed removal does not change
the outcome. -/
def fail (e : IoError) : Phase → Phase
  | .preparing | .creating => .finished (.error e)
  | .writing temp _ | .syncing temp | .opening temp | .renaming temp => .removing temp (.error e)
  | .removing _ outcome => .finished outcome
  | .finished outcome => .finished outcome

/-- How many acts may lie ahead when all that is left is written at once. -/
def ahead : Phase → Nat
  | .preparing => 7
  | .creating => 6
  | .writing .. => 5
  | .syncing _ => 4
  | .opening _ => 3
  | .renaming _ => 2
  | .removing .. => 1
  | .finished _ => 0

end Phase

/-- The mode of a file that only its owner may use. -/
def privateMode : Nat := 0o600

/-- The mode of a file that everybody may read. -/
def publicMode : Nat := 0o644

/-! ## Names of temporary files -/

/-- The characters that make a temporary name unlike others. -/
def suffixChars : List Char :=
  "0123456789ABCDEFGHIJKLMNOPQRSTUVWXYZabcdefghijklmnopqrstuvwxyz".toList

/-- How many characters those are. -/
def suffixLength : Nat := 6

/-- How many suffixes there are. -/
def suffixCount : Nat := Nat.pow suffixChars.length suffixLength

/-- The `k`-th suffix. -/
def suffix (k : Nat) : String :=
  String.ofList <| (List.range suffixLength).map fun i =>
    suffixChars.getD (k / Nat.pow suffixChars.length i % suffixChars.length) '0'

/-- The suffixes in order, more than there are entries in the tree. -/
def FileTree.suffixesInOrder (t : FileTree) : List Nat :=
  List.range (min (t.size + 1) suffixCount)

namespace Replacement

variable (r : Replacement)

/-- The directory of the target, where the temporary file has to be for the
rename to be a single act. -/
def directory : RawText := Path.directory r.path

/-- What the temporary file is named after: the text of the target's name, which
is longer than the name where that is not in UTF-8. -/
def baseName : String := (Path.parts r.path).fileName?.elim "json" RawText.text

/-- The name of the temporary file with the `k`-th suffix. -/
def tempName (k : Nat) : RawText :=
  .ofText ("." ++ r.baseName ++ "." ++ suffix k ++ ".tmp")

/-- The path of the temporary file with the `k`-th suffix. -/
def tempPath (k : Nat) : RawText := Path.join r.directory (r.tempName k)

/-- The mode of the file when it is in place. -/
def mode : Nat := if r.isPrivate then privateMode else publicMode

/-- Creates the temporary file with the `k`-th suffix. It is asked for by its
path from the root, which may be too long where the path itself is not. -/
def createNth (t : FileTree) (k : Nat) : Except IoError (FileTree × Temporary) := do
  let path := r.tempPath k
  FileTree.checkPath (t.fromRoot path)
  let (t, l) ← t.create path (.file privateMode [])
  pure (t, ⟨path, l⟩)

/-- Creates the temporary file under the first name that is free among those
tried. -/
def createTemp (t : FileTree) : (tries : List Nat) → Except IoError (FileTree × Temporary)
  | [] => .error .noFreeName
  | k :: rest =>
    match r.createNth t k with
    | .ok created => .ok created
    | .error e => if e.kind = .alreadyExists then createTemp t rest else .error e

/-- **One act.** A write takes at most `chunk` bytes. -/
def step (chunk : Nat) (t : FileTree) : Phase → FileTree × Phase
  | .preparing =>
    if r.createDirs then
      match t.createDirectories r.directory with
      | (t, .ok ()) => (t, .creating)
      | (t, .error e) => (t, .finished (.error e))
    else (t, .creating)
  | .creating =>
    match r.createTemp t r.tries with
    | .ok (t, temp) => (t, .writing temp r.content)
    | .error e => (t, .finished (.error e))
  | .writing temp left =>
    let t := t.append temp.location (left.take chunk)
    match left.drop chunk with
    | [] => (t, .syncing temp)
    | left => (t, .writing temp left)
  | .syncing temp => (t, .opening temp)
  | .opening temp =>
    if r.isPrivate then (t, .renaming temp)
    else match t.setMode temp.path publicMode with
      | .ok t => (t, .renaming temp)
      | .error e => (t, .removing temp (.error e))
  | .renaming temp =>
    match t.rename temp.path r.path with
    | .ok t => (t, .removing temp (.ok ()))
    | .error e => (t, .removing temp (.error e))
  | .removing temp outcome =>
    -- what the path no longer leads to is taken for gone
    if t.leadsSomewhere temp.path then
      match t.remove temp.path with
      | .ok t => (t, .finished outcome)
      | .error _ => (t, .finished outcome)
    else (t, .finished outcome)
  | .finished outcome => (t, .finished outcome)

/-- Takes up to `acts` steps, each write in one piece. -/
def runFrom (t : FileTree) : (acts : Nat) → Phase → FileTree × Except IoError Unit
  | _, .finished outcome => (t, outcome)
  | 0, _ => (t, .ok ())
  | acts + 1, phase =>
    let (t, phase) := r.step r.content.length t phase
    runFrom t acts phase

/-- **The replacement from beginning to end.** -/
def run (t : FileTree) : FileTree × Except IoError Unit :=
  r.runFrom t (Phase.ahead .preparing) .preparing

end Replacement

end DocStore
