import DocStore.Files.Path
import DocStore.Files.Tree
/-!
# Walking a path

How a path leads through a tree. A walk starts at the root, whose parent is
itself, or at the home of the tree, and follows symbolic links, but no more
than `linkLimit` of them.
`FileTree.locate` also answers for a last name that is not there yet;
`FileTree.place` stops in front of the last name, as creating, renaming and
removing do.
-/

namespace DocStore

/-- The most links that one walk follows. -/
def linkLimit : Nat := 40

/-- The most bytes of a name. -/
def nameLimit : Nat := 255

/-- The most bytes of a path. -/
def pathLimit : Nat := 4095

namespace FileTree

/-- **Walks** from a place along the given steps. -/
def locate (t : FileTree) (links : Nat) (here : Location) (steps : List RawText) :
    Except IoError (Location × Option Entry) :=
  match steps with
  | [] => .ok (here, t.get? here)
  | step :: rest =>
    match t.get? here with
    | some .directory =>
      if step = Path.dot then t.locate links here rest
      else if step = Path.dots then t.locate links here.dropLast rest
      else if nameLimit < step.size then .error .nameTooLong
      else
        let there := here ++ [step]
        match t.get? there with
        | none => if rest.isEmpty then .ok (there, none) else .error .notFound
        | some (.link target) =>
          match links with
          | 0 => .error .tooManyLinks
          | links + 1 =>
            t.locate links (if Path.isAbsolute target then [] else here) (Path.steps target ++ rest)
        | some _ => t.locate links there rest
    | _ => .error .notDirectory
termination_by (links, steps.length)

/-- Where the walk of a path starts. -/
def start (t : FileTree) (path : RawText) : Location :=
  if Path.isAbsolute path then [] else t.home

/-- The path from the root for a path from the home of the tree. -/
def fromRoot (t : FileTree) (path : RawText) : RawText :=
  if Path.isAbsolute path then path
  else Path.join ⟨Path.slash :: [Path.slash].intercalate (t.home.map RawText.bytes)⟩ path

/-- Whether the system takes a path at all. -/
def checkPath (path : RawText) : Except IoError Unit :=
  if path.bytes.contains 0 then .error .nulInName
  else if path.bytes.isEmpty then .error .notFound
  else if pathLimit < path.size then .error .nameTooLong
  else .ok ()

/-- **What a path leads to**, links followed. -/
def resolve (t : FileTree) (path : RawText) : Except IoError (Location × Entry) := do
  checkPath path
  match ← t.locate linkLimit (t.start path) (Path.steps path) with
  | (l, some e) => pure (l, e)
  | (_, none) => .error .notFound

/-- The last name of a path, once the walk is in front of it. -/
inductive Last where
  /-- A name, perhaps with a slash behind it. -/
  | name (s : RawText) (slash : Bool)
  /-- Nothing that could be created or replaced: `.`, `..` or the root. -/
  | fixed
  deriving DecidableEq

/-- **Walks up to the last name**: the directory it lies in, and the name. -/
def place (t : FileTree) (path : RawText) : Except IoError (Location × Last) := do
  checkPath path
  let pieces := Path.pieces path
  let (dir, entry) ← t.locate linkLimit (t.start path) pieces.dropLast
  match entry with
  | some .directory =>
    match pieces.getLast? with
    | some name =>
      if name = Path.dot || name = Path.dots then pure (dir, .fixed)
      else pure (dir, .name name (Path.endsInSlash path))
    | none => pure (dir, .fixed)
  | some _ => .error .notDirectory
  | none => .error .notFound

end FileTree

end DocStore
