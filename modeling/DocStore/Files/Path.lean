import DocStore.Text.Raw
/-!
# Paths

A path is a raw text, given to the system as it stands. Two views of it are
used: `Path.steps`, which is how the system walks it, and `Path.Parts`, by
which paths are compared. In the second view repeated and closing slashes and
inner `.` do not count, but a `.` in front does. `Path.parent?` cuts the last
part off the text and leaves the rest as it is.
-/

namespace DocStore

namespace Path

/-- The byte between two parts of a path. -/
def slash : UInt8 := 0x2F

/-- The step that stays where it is. -/
def dot : RawText := ⟨[0x2E]⟩

/-- The step to the parent. -/
def dots : RawText := ⟨[0x2E, 0x2E]⟩

@[simp] theorem dots_ne_dot : dots ≠ dot := by decide

/-- Cuts bytes at every slash. -/
def split : List UInt8 → List (List UInt8)
  | [] => [[]]
  | c :: rest =>
    if c = slash then [] :: split rest
    else match split rest with
      | [] => [[c]]
      | piece :: pieces => (c :: piece) :: pieces

/-- What stands between the slashes of a path. -/
def pieces (path : RawText) : List RawText :=
  ((split path.bytes).filter (· ≠ [])).map RawText.mk

/-- Whether a path starts at the root. -/
def isAbsolute (path : RawText) : Bool := path.bytes.head? == some slash

/-- Whether a path ends in a slash. -/
def endsInSlash (path : RawText) : Bool := path.bytes.getLast? == some slash

/-- **The steps of a walk.** A slash at the end asks for a directory, as one more
`.` does. -/
def steps (path : RawText) : List RawText :=
  pieces path ++ if endsInSlash path then [dot] else []

/-! ## Parts -/

/-- **A path taken apart.** -/
structure Parts where
  absolute : Bool
  names : List RawText
  deriving DecidableEq, Repr

/-- The parts of a path. -/
def parts (path : RawText) : Parts :=
  match pieces path with
  | [] => ⟨isAbsolute path, []⟩
  | first :: rest =>
    ⟨isAbsolute path,
      (if first = dot && isAbsolute path then [] else [first]) ++ rest.filter (· ≠ dot)⟩

namespace Parts

/-- The last part, if it is a name. -/
def fileName? (p : Parts) : Option RawText :=
  match p.names.getLast? with
  | some name => if name = dot || name = dots then none else some name
  | none => none

end Parts

/-! ## Cutting off the end

What is left of a path without its last part are bytes of it in front, so
slashes and dots further in stay as they were given, and count towards the
length of the path. -/

/-- Whether a piece is passed over: nothing between two slashes, or a `.`. -/
def isIdle (piece : List UInt8) : Bool := piece == [] || piece == dot.bytes

/-- The pieces without the idle ones at their end. -/
def trimIdle (pieces : List (List UInt8)) : List (List UInt8) :=
  (pieces.reverse.dropWhile isIdle).reverse

/-- Pieces with slashes between them; an empty one alone is the root. -/
def joined (pieces : List (List UInt8)) : RawText :=
  if pieces = [[]] then ⟨[slash]⟩ else ⟨[slash].intercalate pieces⟩

/-- **A path without its last part**, empty if it has only one. The piece in
front always counts. -/
def parent? (path : RawText) : Option RawText :=
  match split path.bytes with
  | [] => none
  | first :: rest =>
    match trimIdle rest with
    | [] => if first = [] then none else some ⟨[]⟩
    | rest => some (joined (first :: trimIdle rest.dropLast))

/-- The directory that a path lies in. -/
def directory (path : RawText) : RawText :=
  match parent? path with
  | some dir => if dir.bytes.isEmpty then dot else dir
  | none => dot

/-- The path of these pieces, the last one first, and all in front of it. -/
def ancestorsFrom (first : List UInt8) : List (List UInt8) → List RawText
  | [] => if first = [] then [] else [joined [first]]
  | piece :: outer =>
    if isIdle piece then ancestorsFrom first outer
    else joined (first :: (piece :: outer).reverse) :: ancestorsFrom first outer

/-- **A path and all that is left** when the last part is cut off again and
again, the longest first, without the root. -/
def ancestors (path : RawText) : List RawText :=
  match split path.bytes with
  | [] => []
  | first :: rest => ancestorsFrom first rest.reverse

/-- A name inside a directory. -/
def join (dir name : RawText) : RawText :=
  if endsInSlash dir then dir ++ name else dir ++ ⟨[slash]⟩ ++ name

end Path

end DocStore
