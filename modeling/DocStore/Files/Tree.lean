import DocStore.Files.IoError
import DocStore.Text.Raw
/-!
# File trees

What lies below the root: directories, files with their mode and content, and
symbolic links. Everything has one location, the names that lead to it from
the root, and the tree maps locations to what lies there. Names are raw texts.
Relative paths start at one of the directories, the home of the tree.
-/

namespace DocStore

/-- **A place in a tree**: the names from the root down to it. -/
abbrev Location := List RawText

/-- A place is written with the texts of its names. -/
instance : Coe (List String) Location := ⟨List.map RawText.ofText⟩

/-- **What lies at a place.** -/
inductive Entry where
  | directory
  | file (mode : Nat) (content : List UInt8)
  | link (target : RawText)
  deriving DecidableEq, Repr

/-- **A tree of files.** The root is a directory and has no entry. -/
structure FileTree where
  entries : Std.ExtTreeMap Location Entry compare := ∅
  /-- The directory from which relative paths start. -/
  home : Location := []

namespace FileTree

/-- What lies at a place. -/
def get? (t : FileTree) (l : Location) : Option Entry :=
  if l = [] then some .directory else t.entries[l]?

/-- The tree with something put at a place. -/
def put (t : FileTree) (l : Location) (e : Entry) : FileTree :=
  { t with entries := t.entries.insert l e }

/-- The tree without what lies at a place. -/
def erase (t : FileTree) (l : Location) : FileTree :=
  { t with entries := t.entries.erase l }

/-- The tree without what lies at a place and below it. -/
def eraseBelow (t : FileTree) (l : Location) : FileTree :=
  { t with entries := t.entries.filter fun k _ => !l.isPrefixOf k }

/-- Everything in the tree: each directory before what it holds, names in
order. -/
def toList (t : FileTree) : List (Location × Entry) := t.entries.toList

/-- Everything below the home of the tree, by its place from there as it is
shown. -/
def contents (t : FileTree) : List (List String × Entry) :=
  t.toList.filterMap fun (l, e) =>
    if t.home.isPrefixOf l && l ≠ t.home then
      some ((l.drop t.home.length).map RawText.text, e)
    else none

/-- How many entries the tree has. -/
def size (t : FileTree) : Nat := t.entries.size

end FileTree

end DocStore
