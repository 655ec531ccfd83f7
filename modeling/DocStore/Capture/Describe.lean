import Std.Data.ExtTreeMap
import DocStore.Capture.Capture
import DocStore.Json.Basic
/-!
# Values that describe themselves

`Describe α` gives each value of `α` its description. Whole numbers describe
themselves by their kind, options by absence or presence, lists and maps by
their parts in order, and JSON values by the form they would be written in.
-/

namespace DocStore

/-- Types whose values describe themselves. -/
class Describe (α : Type) where
  describe : α → Program

export Describe (describe)

instance : Describe Bool := ⟨.bool⟩
instance : Describe Int8 := ⟨fun n => .integer (.signed .w8) n.toInt⟩
instance : Describe Int64 := ⟨fun n => .integer (.signed .w64) n.toInt⟩
instance : Describe UInt8 := ⟨fun n => .integer (.unsigned .w8) n.toNat⟩
instance : Describe UInt16 := ⟨fun n => .integer (.unsigned .w16) n.toNat⟩
instance : Describe UInt64 := ⟨fun n => .integer (.unsigned .w64) n.toNat⟩
instance : Describe Float := ⟨.float64⟩
instance : Describe String := ⟨.text⟩
instance : Describe Unit := ⟨fun _ => .unit⟩

instance {α : Type} [Describe α] : Describe (Option α) :=
  ⟨fun
    | some v => .present (describe v)
    | none => .absent⟩

instance {α : Type} [Describe α] : Describe (List α) :=
  ⟨fun items => .list (some items.length) (items.map describe)⟩

instance {α β : Type} [Describe α] [Describe β] : Describe (α × β) :=
  ⟨fun (a, b) => .tuple [describe a, describe b]⟩

/-- A map describes itself entry by entry, in the order of its keys. -/
instance {κ α : Type} {cmp : κ → κ → Ordering} [Std.TransCmp cmp] [Describe κ] [Describe α] :
    Describe (Std.ExtTreeMap κ α cmp) :=
  ⟨fun m => .map (some m.size)
    (MapCall.ofEntries (m.toList.map fun (k, v) => (describe k, describe v)))⟩

/-- A number describes itself as unsigned where it can. -/
def Number.describe : Number → Program
  | .whole n _ _ => .integer (if 0 ≤ n then .unsigned .w64 else .signed .w64) n
  | .float x _ => .float64 x

mutual

/-- **The description of a JSON value.** -/
def Json.describe : Json → Program
  | .null => .unit
  | .bool b => .bool b
  | .number n => n.describe
  | .string s => .text s
  | .array items => .list (some items.length) (Json.describeItems items)
  | .object members => .map (some members.length) (Json.describeMembers members)

/-- The descriptions of elements. -/
def Json.describeItems : List Json → List Program
  | [] => []
  | v :: rest => v.describe :: Json.describeItems rest

/-- The calls that describe members. -/
def Json.describeMembers : List (String × Json) → List MapCall
  | [] => []
  | (name, v) :: rest => .key (.text name) :: .value v.describe :: Json.describeMembers rest

end

instance : Describe Json := ⟨Json.describe⟩

end DocStore
