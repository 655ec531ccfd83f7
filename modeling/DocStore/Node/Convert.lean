import DocStore.Node.Basic
/-!
# Values as nodes

How plain values become nodes and keys. A whole number is a signed node if
it fits one, and an unsigned node only above that.
-/

namespace DocStore

variable {α κ : Type}

/-- Values that are nodes as they stand. -/
class ToNode (α : Type) where
  toNode : α → Node

/-- Values that are keys as they stand. -/
class ToKey (α : Type) where
  toKey : α → Key

export ToNode (toNode)
export ToKey (toKey)

/-- A whole number in one of the two integer forms, `none` out of range. -/
def Node.ofInt? (n : Int) : Option Node :=
  if -0x8000000000000000 ≤ n && n < 0x8000000000000000 then some (.int (Int64.ofInt n))
  else if 0 ≤ n && n < 0x10000000000000000 then some (.uint (UInt64.ofNat n.toNat))
  else none

instance : ToNode Node := ⟨id⟩
instance : ToNode Bool := ⟨.bool⟩
instance : ToNode Int8 := ⟨fun n => .int n.toInt64⟩
instance : ToNode Int16 := ⟨fun n => .int n.toInt64⟩
instance : ToNode Int32 := ⟨fun n => .int n.toInt64⟩
instance : ToNode Int64 := ⟨.int⟩
instance : ToNode UInt8 := ⟨fun n => .int (Int64.ofNat n.toNat)⟩
instance : ToNode UInt16 := ⟨fun n => .int (Int64.ofNat n.toNat)⟩
instance : ToNode UInt32 := ⟨fun n => .int (Int64.ofNat n.toNat)⟩
instance : ToNode UInt64 :=
  ⟨fun n => if n.toNat < 0x8000000000000000 then .int (Int64.ofNat n.toNat) else .uint n⟩
instance : ToNode Float := ⟨.float⟩
instance : ToNode Float32 := ⟨fun x => .float x.toFloat⟩
instance : ToNode String := ⟨.string⟩
instance : ToNode Timestamp := ⟨.timestamp⟩
instance : ToNode Duration := ⟨.duration⟩

instance [ToNode α] : ToNode (List α) := ⟨fun items => .array (items.map toNode)⟩

instance [ToNode α] : ToNode (Option α) :=
  ⟨fun
    | some v => toNode v
    | none => .null⟩

instance : ToKey String := ⟨.string⟩
instance : ToKey Int64 := ⟨.int⟩
instance : ToKey Bool := ⟨.bool⟩
instance : ToKey Node := ⟨Node.toKey⟩

namespace Node

/-- An object of these entries, in their order. -/
def ofEntries [ToKey κ] [ToNode α] (entries : List (κ × α)) : Node :=
  .object (entries.map fun (k, v) => (ToKey.toKey k, ToNode.toNode v))

/-- A set of these items, kept as given. -/
def ofItems [ToNode α] (items : List α) : Node := .set (items.map ToNode.toNode)

/-- A number as a node. -/
def ofNumber : Number → Node
  | .whole n _ _ => if n < 0x8000000000000000 then .int (Int64.ofInt n) else .uint (UInt64.ofNat n.toNat)
  | .float x _ => .float x

mutual

/-- **A JSON value as a node.** -/
def ofJson : Json → Node
  | .null => .null
  | .bool b => .bool b
  | .number n => ofNumber n
  | .string s => .string s
  | .array items => .array (ofJsonItems items)
  | .object members => .object (ofJsonMembers members)

/-- JSON values as nodes, one by one. -/
def ofJsonItems : List Json → List Node
  | [] => []
  | v :: rest => ofJson v :: ofJsonItems rest

/-- Members as entries under text keys. -/
def ofJsonMembers : List (String × Json) → List (Key × Node)
  | [] => []
  | (name, v) :: rest => (.string name, ofJson v) :: ofJsonMembers rest

end

end Node

instance : ToNode Json := ⟨Node.ofJson⟩

end DocStore
