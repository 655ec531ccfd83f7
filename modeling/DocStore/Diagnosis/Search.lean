import DocStore.Diagnosis.Report
import DocStore.Encoding.Encode
/-!
# Finding what cannot be encoded

The search goes through a node level by level and passes over every part
that encodes on its own. A record is replaced by what it renders to, at most
`Encoder.chainLimit` times in a row; its label joins the path. A key without
a name, or with a name that an earlier key has, is a finding of its own, and
the value under it is not looked at.

Only whether parts encode comes from the encoder: the search itself is over
any predicate, and `positions` bounds its visits.
-/

namespace DocStore

namespace Diagnosis

/-- **A part of the node still to be looked at**, with its path and the number
of records in a row that were replaced on the way to it. -/
structure Part where
  node : Node
  path : String
  replaced : Nat

/-- The path of the key of an entry. -/
def keyPath (path : String) (key : Key) : String := path ++ "<key: " ++ key.text ++ ">"

/-- The path of the value of an entry. -/
def valuePath (path : String) (key : Key) : String := path ++ "." ++ key.text

/-- The path of an element. -/
def itemPath (path : String) (index : Nat) : String := path ++ "[" ++ index.repr ++ "]"

/-- The path of what a record renders to. -/
def recordPath (path : String) (tag : RecordTag) : String := path ++ "(" ++ tag.label ++ ")"

/-- The elements of an array, from the given index on. -/
def itemParts (path : String) (index : Nat) : List Node → List Part
  | [] => []
  | v :: rest => ⟨v, itemPath path index, 0⟩ :: itemParts path (index + 1) rest

/-- The bad keys of an object and the values under its good ones. -/
def entryParts (path : String) :
    (taken : List String) → List (Key × Node) → List (String × Node) × List Part
  | _, [] => ([], [])
  | taken, (key, v) :: rest =>
    match key.name with
    | .ok name =>
      if name ∈ taken then
        let (bad, parts) := entryParts path taken rest
        ((keyPath path key, key.toNode) :: bad, parts)
      else
        let (bad, parts) := entryParts path (name :: taken) rest
        (bad, ⟨v, valuePath path key, 0⟩ :: parts)
    | .error _ =>
      let (bad, parts) := entryParts path taken rest
      ((keyPath path key, key.toNode) :: bad, parts)

/-- The findings in a part that does not encode, and the parts inside it. -/
def Part.open (p : Part) : List (String × Node) × List Part :=
  match p.node with
  | .record tag rendering =>
    if Encoder.chainLimit ≤ p.replaced then ([(p.path, p.node)], [])
    else ([], [⟨Node.rendered tag rendering, recordPath p.path tag, p.replaced + 1⟩])
  | .object entries => entryParts p.path [] entries
  | .array items => ([], itemParts p.path 0 items)
  | leaf => ([(p.path, leaf)], [])

/-- The findings in a part and the parts inside it, if it does not encode. -/
def Part.look (encodes : Node → Bool) (p : Part) : List (String × Node) × List Part :=
  if encodes p.node then ([], []) else p.open

/-! ## The search -/

/-- **A search under way**: the parts that wait, the next one first, and what
was found. -/
structure Search where
  waiting : List Part
  found : Report

/-- Looks at the next part; what is inside it waits behind all others. -/
def Search.visit (encodes : Node → Bool) (s : Search) : Search :=
  match s.waiting with
  | [] => s
  | p :: waiting =>
    let (bad, inside) := p.look encodes
    ⟨waiting ++ inside, Report.insertAll bad s.found⟩

/-- Looks at as many parts as `visits` says. -/
def Search.run (encodes : Node → Bool) (s : Search) : (visits : Nat) → Search
  | 0 => s
  | visits + 1 => (s.visit encodes).run encodes visits

mutual

/-- **The positions in a node** that a search may look at, when `replaced`
records in a row led to it. -/
def positions (replaced : Nat) : Node → Nat
  | .array items => positionsAll items + 1
  | .object entries => positionsEntries entries + 1
  | .record _ rendering =>
    if Encoder.chainLimit ≤ replaced then 1 else positionsRendering (replaced + 1) rendering + 1
  | _ => 1

/-- The positions in what a record renders to; one that renders to itself is
looked at until the limit. -/
def positionsRendering (replaced : Nat) : Option Node → Nat
  | some n => positions replaced n
  | none => Encoder.chainLimit - replaced + 1

/-- The positions in all elements. -/
def positionsAll : List Node → Nat
  | [] => 0
  | v :: rest => positions 0 v + positionsAll rest

/-- The positions in all values of entries. -/
def positionsEntries : List (Key × Node) → Nat
  | [] => 0
  | (_, v) :: rest => positions 0 v + positionsEntries rest

end

/-- The part that is the whole node. -/
def Part.root (n : Node) : Part := ⟨n, "$", 0⟩

/-- The search that is about to start at a node. -/
def Search.start (n : Node) : Search := ⟨[.root n], []⟩

/-- What keeps a node from encoding, by a predicate on its parts. -/
def report (encodes : Node → Bool) (n : Node) : Report :=
  ((Search.start n).run encodes (positions 0 n)).found

end Diagnosis

/-- **What keeps a node from being encoded**, each attempt within the budget. -/
def Encoder.diagnose (e : Encoder) (budget : Nat) (n : Node) : Report :=
  Diagnosis.report (e.accepts budget) n

end DocStore
