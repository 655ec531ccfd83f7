import DocStore.Json.Basic
import DocStore.Time.Duration
import DocStore.Time.Timestamp
/-!
# Nodes

A `Node` is anything a program may want to keep: what JSON can say, and
also sets, times, byte strings, floats that are not finite, objects under
keys that are no strings, records that render themselves, and values known
only by name. Whether a node can be written is for an encoder to decide.
-/

namespace DocStore

/-- **What a record shows of itself**: the name of its type and, if it has
one, what tells it from others of that type. -/
structure RecordTag where
  typeName : String
  identity : Option String
  /-- Which shared record this is: two handles are the same record exactly if
  they carry the same number. -/
  share : Nat
  deriving DecidableEq

/-- The type name, followed by the identity if there is one. -/
def RecordTag.label (t : RecordTag) : String :=
  match t.identity with
  | some id => t.typeName ++ ": " ++ id
  | none => t.typeName

mutual

/-- **Anything a program may want to keep.** A record without a rendering
renders to a record just like itself, and so for ever. -/
inductive Node where
  | null
  | bool (b : Bool)
  | int (i : Int64)
  | uint (u : UInt64)
  | float (x : Float)
  | string (s : String)
  | array (items : List Node)
  | object (entries : List (Key × Node))
  | set (items : List Node)
  | timestamp (t : Timestamp)
  | duration (d : Duration)
  | bytes (bs : List UInt8)
  | record (tag : RecordTag) (rendering : Option Node)
  | foreign (typeName repr : String)

/-- **The key of an entry.** Only texts are keys in JSON. -/
inductive Key where
  | string (s : String)
  | int (i : Int64)
  | uint (u : UInt64)
  | float (x : Float)
  | bool (b : Bool)
  | null
  | composite (n : Node)

end

instance : Inhabited Node := ⟨.null⟩

/-- The key as a value. -/
def Key.toNode : Key → Node
  | .string s => .string s
  | .int i => .int i
  | .uint u => .uint u
  | .float x => .float x
  | .bool b => .bool b
  | .null => .null
  | .composite n => n

namespace Node

/-- The value as a key; what is no scalar becomes composite. -/
def toKey : Node → Key
  | .string s => .string s
  | .int i => .int i
  | .uint u => .uint u
  | .float x => .float x
  | .bool b => .bool b
  | .null => .null
  | other => .composite other

theorem toNode_toKey (n : Node) : n.toKey.toNode = n := by
  cases n <;> rfl

/-- What a record renders to. -/
def rendered (tag : RecordTag) (rendering : Option Node) : Node :=
  rendering.getD (.record tag none)

/-- The name of a node's type, as findings show it. -/
def typeName : Node → String
  | .null => "null"
  | .bool _ => "bool"
  | .int _ => "int"
  | .uint _ => "uint"
  | .float _ => "float"
  | .string _ => "string"
  | .array _ => "array"
  | .object _ => "object"
  | .set _ => "set"
  | .timestamp _ => "datetime"
  | .duration _ => "duration"
  | .bytes _ => "bytes"
  | .record tag _ => tag.typeName
  | .foreign typeName _ => typeName

/-- The value under the first entry whose key is the text `name`. -/
def lookup (name : String) : List (Key × Node) → Option Node
  | [] => none
  | (.string s, v) :: rest => if s = name then some v else lookup name rest
  | _ :: rest => lookup name rest

/-- **Access by name**: only objects have entries, and only keys that are texts
have names. -/
def get? (n : Node) (name : String) : Option Node :=
  match n with
  | .object entries => lookup name entries
  | _ => none

/-! ## Sameness -/

mutual

/-- **Sameness of nodes.** Floats compare as numbers, timestamps as instants,
and records by being one shared record. -/
def same : Node → Node → Bool
  | .null, .null => true
  | .bool a, .bool b => a == b
  | .int a, .int b => a == b
  | .uint a, .uint b => a == b
  | .float a, .float b => a == b
  | .string a, .string b => a == b
  | .array a, .array b => sameItems a b
  | .object a, .object b => sameEntries a b
  | .set a, .set b => sameItems a b
  | .timestamp a, .timestamp b => a.sameInstant b
  | .duration a, .duration b => a == b
  | .bytes a, .bytes b => a == b
  | .record a _, .record b _ => a.share == b.share
  | .foreign a r, .foreign b s => a == b && r == s
  | _, _ => false

/-- Sameness of lists, one by one. -/
def sameItems : List Node → List Node → Bool
  | [], [] => true
  | a :: as, b :: bs => same a b && sameItems as bs
  | _, _ => false

/-- Sameness of entries, in order. -/
def sameEntries : List (Key × Node) → List (Key × Node) → Bool
  | [], [] => true
  | (k, a) :: as, (l, b) :: bs => sameKey k l && (same a b && sameEntries as bs)
  | _, _ => false

/-- Sameness of keys. -/
def sameKey : Key → Key → Bool
  | .string a, .string b => a == b
  | .int a, .int b => a == b
  | .uint a, .uint b => a == b
  | .float a, .float b => a == b
  | .bool a, .bool b => a == b
  | .null, .null => true
  | .composite a, .composite b => same a b
  | _, _ => false

end

end Node

end DocStore
