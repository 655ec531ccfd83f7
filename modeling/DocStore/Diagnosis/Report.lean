import DocStore.Node.Display
/-!
# Reports

What keeps a node from being encoded: the offending values under their
paths. A report keeps the order of discovery, and a path that is found twice
keeps its first place and its last value.
-/

namespace DocStore

/-- **The offending values by path**, in the order of discovery. -/
abbrev Report := List (String × Node)

namespace Report

/-- Enters a value under a path. -/
def insert (path : String) (value : Node) : Report → Report
  | [] => [(path, value)]
  | (p, v) :: rest =>
    if p = path then (p, value) :: rest else (p, v) :: insert path value rest

/-- Enters values one after the other. -/
def insertAll (found : List (String × Node)) (r : Report) : Report :=
  found.foldl (fun r (path, value) => r.insert path value) r

/-- One finding: path, value and type. -/
def findingText (path : String) (value : Node) : String :=
  path ++ "=" ++ value.text ++ "(" ++ value.typeName ++ ")"

/-- **The findings on one line.** -/
def text (r : Report) : String :=
  ", ".intercalate (r.map fun (path, value) => findingText path value)

end Report

end DocStore
