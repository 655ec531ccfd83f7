import DocStore.Capture.Describe
import DocStore.Json.Reader.Skip
import DocStore.Typed.Decode
/-!
# Configurations

A product with three named fields, as an example of a type that is saved and
loaded by name: its fields are read in any order, fields of other names are
passed over, and none may be missing or come twice.
-/

namespace DocStore

/-- **A configuration.** -/
structure Config where
  name : String
  port : UInt16
  tags : List String
  deriving DecidableEq

instance : Inhabited Config := ⟨⟨"", 0, []⟩⟩

instance : Describe Config :=
  ⟨fun c => .product "Config"
    [.given "name" (describe c.name), .given "port" (describe c.port),
      .given "tags" (describe c.tags)]⟩

namespace Config

/-- The fields read so far. -/
structure Partial where
  name : Option String := none
  port : Option UInt16 := none
  tags : Option (List String) := none

open Reader

/-- Reads one field, or passes over one of another name. -/
def readField (c : Partial) : Reader Partial := fun left => do
  let (name, left) ← string (left.drop 1)
  let repeated : Except Fault (Partial × List UInt8) :=
    stop (.repeatedField name) (pastClosing 0x7D left)
  match name with
  | "name" =>
    if c.name.isSome then repeated
    else do
      let (v, left) ← Decodable.read (← colon left)
      pure ({ c with name := some v }, left)
  | "port" =>
    if c.port.isSome then repeated
    else do
      let (v, left) ← Decodable.read (← colon left)
      pure ({ c with port := some v }, left)
  | "tags" =>
    if c.tags.isSome then repeated
    else do
      let (v, left) ← Decodable.read (← colon left)
      pure ({ c with tags := some v }, left)
  | _ => pure (c, ← skip (← colon left))

/-- The configuration with these fields; the first one that is missing is
complained about behind the object. -/
def Partial.complete (c : Partial) (left : List UInt8) : Except Fault (Config × List UInt8) :=
  match c.name, c.port, c.tags with
  | some name, some port, some tags => .ok (⟨name, port, tags⟩, left)
  | none, _, _ => stop (.missingField "name") left
  | _, none, _ => stop (.missingField "port") left
  | _, _, none => stop (.missingField "tags") left

/-- Reads a configuration from an object, or from a list of its fields. -/
def read : Reader Config := fun left =>
  let expected := "struct Config with 3 elements"
  match skipSpace left with
  | b :: rest =>
    if b == 0x7B then do
      let (c, rest) ← fields readField {} rest
      c.complete rest
    else if b == 0x5B then do
      let (name, rest) ← element 0 expected Decodable.read rest
      let (port, rest) ← element 1 expected Decodable.read rest
      let (tags, rest) ← element 2 expected Decodable.read rest
      let rest ← closeList rest
      pure (⟨name, port, tags⟩, rest)
    else refuse "struct Config" left
  | [] => refuse "struct Config" left

end Config

instance : Decodable Config := ⟨Config.read⟩

end DocStore
