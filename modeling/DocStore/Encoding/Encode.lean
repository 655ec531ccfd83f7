import DocStore.Encoding.Encoder
import DocStore.Encoding.Error
import DocStore.Node.Convert
/-!
# Encoding

`Encoder.encode` turns a node into a JSON value. It goes through a node in
document order and fails at the first fault. A value without a JSON form is
replaced by its substitute, at most `chainLimit` times in a row.

An encoder is any function, so encoding need not come to an end: the
substitute of a set may be a list that holds the set. `encode` therefore
takes a budget, the greatest depth of nesting, substitutes included; it
gives `none` exactly where the budget runs out.
-/

namespace DocStore

/-- **What encoding gives**: nothing if the budget ran out, else a value or the
first fault. -/
abbrev Attempt (α : Type) := ExceptT EncodeError Option α

/-- **The name of a key.** Scalars are named by their text; floats that are not
finite and composite keys have no name. -/
def Key.name : Key → Except EncodeError String
  | .string s => .ok s
  | .int i => .ok i.toInt.repr
  | .uint u => .ok u.toNat.repr
  | .bool b => .ok (if b then "true" else "false")
  | .null => .ok "null"
  | .float x =>
    if x.isFinite then .ok (Node.floatText x)
    else .error (.invalidKey (Key.text (.float x)))
  | .composite n => .error (.invalidKey (Key.text (.composite n)))

/-- A whole signed number as a JSON number. -/
def Number.ofInt64 (i : Int64) : Number :=
  .whole i.toInt (Int64.le_toInt i) (by have := Int64.toInt_lt i; omega)

/-- A whole unsigned number as a JSON number. -/
def Number.ofUInt64 (u : UInt64) : Number :=
  .whole u.toNat (by omega) (by have := UInt64.toNat_lt u; omega)

namespace Encoder

/-- How many substitutes may follow one another before a value that needs
none. -/
def chainLimit : Nat := 32

/-- Encodes elements in order. -/
def encodeItems (encode : Node → Attempt Json) : List Node → Attempt (List Json)
  | [] => pure []
  | v :: rest => do
    let first ← encode v
    let others ← encodeItems encode rest
    pure (first :: others)

/-- Encodes entries in order, each name before its value. A name that is
`taken` by an earlier entry is as bad as none. -/
def encodeEntries (encode : Node → Attempt Json) :
    (taken : List String) → List (Key × Node) → Attempt (List (String × Json))
  | _, [] => pure []
  | taken, (key, v) :: rest =>
    match key.name with
    | .error e => throw e
    | .ok name =>
      if name ∈ taken then throw (.invalidKey name)
      else do
        let first ← encode v
        let others ← encodeEntries encode (name :: taken) rest
        pure ((name, first) :: others)

/-- **Encodes a node** that stands `chain` substitutes behind the last value
with a JSON form. -/
def encode (e : Encoder) : (budget chain : Nat) → Node → Attempt Json
  | 0, _, _ => ExceptT.mk none
  | budget + 1, chain, n =>
    match n with
    | .null => pure .null
    | .bool b => pure (.bool b)
    | .int i => pure (.number (.ofInt64 i))
    | .uint u => pure (.number (.ofUInt64 u))
    | .float x =>
      if h : x.isFinite = true then pure (.number (.float x h)) else throw (.notFinite x)
    | .string s => pure (.string s)
    | .array items => do
      let items ← encodeItems (encode e budget 0) items
      pure (.array items)
    | .object entries => do
      let members ← encodeEntries (encode e budget 0) [] entries
      pure (.object members)
    | n =>
      if chainLimit ≤ chain then throw (.endlessFallback n.typeName)
      else match e.fallback n with
        | some substitute => encode e budget (chain + 1) substitute
        | none => throw (.unsupported n.typeName)

/-- **The JSON form of a node**, or the first fault, within the budget. -/
def toJson (e : Encoder) (budget : Nat) (n : Node) : Option (Except EncodeError Json) :=
  (e.encode budget 0 n).run

/-- Whether a node has a JSON form on its own. -/
def accepts (e : Encoder) (budget : Nat) (n : Node) : Bool :=
  match e.toJson budget n with
  | some (.ok _) => true
  | _ => false

end Encoder

end DocStore
