import DocStore.Files.Walk
/-!
# Operations on files

The few things that saving and loading ask of the system, as functions on
trees. Each fails without a change.
-/

namespace DocStore

namespace FileTree

/-- The bytes of a file. -/
def read (t : FileTree) (path : RawText) : Except IoError (List UInt8) := do
  match ← t.resolve path with
  | (_, .file _ content) => pure content
  | _ => .error .isDirectory

/-- Whether a path leads to a directory. -/
def isDirectory (t : FileTree) (path : RawText) : Bool :=
  match t.resolve path with
  | .ok (_, .directory) => true
  | _ => false

/-- Whether a path leads anywhere. -/
def leadsSomewhere (t : FileTree) (path : RawText) : Bool := (t.resolve path).isOk

/-- Creates an entry under a name that must be free. -/
def create (t : FileTree) (path : RawText) (e : Entry) : Except IoError (FileTree × Location) := do
  match ← t.place path with
  | (_, .fixed) => .error .alreadyThere
  | (dir, .name name _) =>
    if nameLimit < name.size then .error .nameTooLong
    else
      let l := dir ++ [name]
      match t.get? l with
      | some _ => .error .alreadyThere
      | none => pure (t.put l e, l)

/-- Creates a directory. -/
def makeDirectory (t : FileTree) (path : RawText) : Except IoError FileTree := do
  let (t, _) ← t.create path .directory
  pure t

/-- Creates directories, the outermost first; one that is already there will
do. -/
def makeDirectories (t : FileTree) : List RawText → FileTree × Except IoError Unit
  | [] => (t, .ok ())
  | p :: rest =>
    match t.makeDirectory p with
    | .ok t => t.makeDirectories rest
    | .error e =>
      if e.kind = .alreadyExists && t.isDirectory p then t.makeDirectories rest
      else (t, .error e)

/-- The ancestors that have to be created, the innermost first: those in front
of the first that can be created or is there. -/
def missing (t : FileTree) : List RawText → FileTree × Except IoError (List RawText)
  | [] => (t, .ok [])
  | p :: rest =>
    match t.makeDirectory p with
    | .ok t => (t, .ok [])
    | .error e =>
      if e.kind = .notFound then
        match t.missing rest with
        | (t, .ok ps) => (t, .ok (p :: ps))
        | (t, .error e) => (t, .error e)
      else if e.kind = .alreadyExists && t.isDirectory p then (t, .ok [])
      else (t, .error e)

/-- **Creates a directory with all that lead to it.** What was created before a
failure stays. -/
def createDirectories (t : FileTree) (path : RawText) : FileTree × Except IoError Unit :=
  match t.missing (Path.ancestors path) with
  | (t, .ok ps) => t.makeDirectories ps.reverse
  | (t, .error e) => (t, .error e)

/-- Adds bytes to the end of a file that is open. -/
def append (t : FileTree) (l : Location) (bytes : List UInt8) : FileTree :=
  match t.get? l with
  | some (.file mode content) => t.put l (.file mode (content ++ bytes))
  | _ => t

/-- Changes the mode of a file. -/
def setMode (t : FileTree) (path : RawText) (mode : Nat) : Except IoError FileTree := do
  match ← t.resolve path with
  | (l, .file _ content) => pure (t.put l (.file mode content))
  | _ => pure t

/-- **Renames a file** over whatever else than a directory has the new name. -/
def rename (t : FileTree) (old new : RawText) : Except IoError FileTree := do
  let (oldDir, oldLast) ← t.place old
  let (newDir, newLast) ← t.place new
  match oldLast, newLast with
  | .name oldName _, .name newName slash =>
    let source := oldDir ++ [oldName]
    let target := newDir ++ [newName]
    match t.get? source with
    | none => .error .notFound
    | some e =>
      if nameLimit < newName.size then .error .nameTooLong
      else if slash then .error .notDirectory
      else if t.get? target = some .directory then .error .isDirectory
      else pure ((t.erase source).put target e)
  | _, _ => .error .busy

/-- Removes a file or a link. -/
def remove (t : FileTree) (path : RawText) : Except IoError FileTree := do
  match ← t.place path with
  | (_, .fixed) => .error .isDirectory
  | (dir, .name name slash) =>
    let l := dir ++ [name]
    match t.get? l with
    | none => .error .notFound
    | some .directory => .error .isDirectory
    | some _ => if slash then .error .notDirectory else pure (t.erase l)

/-- Writes a whole file with the given mode, creating it if need be. -/
def writeFile (t : FileTree) (path : RawText) (mode : Nat) (content : List UInt8) :
    Except IoError FileTree := do
  checkPath path
  match ← t.locate linkLimit (t.start path) (Path.steps path) with
  | (_, some .directory) => .error .isDirectory
  | (l, _) => pure (t.put l (.file mode content))

/-- Creates a symbolic link. -/
def makeLink (t : FileTree) (path target : RawText) : Except IoError FileTree := do
  let (t, _) ← t.create path (.link target)
  pure t

/-- Removes whatever lies at a path, with all below it. -/
def removeAll (t : FileTree) (path : RawText) : Except IoError FileTree := do
  match ← t.place path with
  | (_, .fixed) => .error .busy
  | (dir, .name name _) =>
    let l := dir ++ [name]
    match t.get? l with
    | none => .error .notFound
    | some _ => pure (t.eraseBelow l)

end FileTree

end DocStore
