import DocStore.Node.Display
/-!
# Encoders

An `Encoder` names a substitute for a value without a JSON form of its own.
The substitute is encoded in turn, so it may itself need one. Three stock
encoders reach from plain JSON to one that renders everything.
-/

namespace DocStore

/-- **A choice of substitutes.** It is asked only about sets, timestamps,
durations, byte strings, records and foreign values. -/
structure Encoder where
  fallback : Node → Option Node

namespace Encoder

/-- Plain JSON: nothing has a substitute. -/
def strict : Encoder := ⟨fun _ => none⟩

/-- Timestamps as text, sets as arrays, and records as what they render to. -/
def standard : Encoder := ⟨fun
  | .timestamp t => some (.string t.text)
  | .set items => some (.array items)
  | .record tag rendering => some (Node.rendered tag rendering)
  | _ => none⟩

/-- A value described by its type name and its text. -/
def described (n : Node) : Node :=
  .object [(.string "__type", .string n.typeName), (.string "repr", .string n.text)]

/-- A duration as its length in seconds. -/
def inSeconds (d : Duration) : Node :=
  .object [(.string "__type", .string "duration"), (.string "total_seconds", .float d.totalSeconds)]

/-- The standard encoder with a substitute for everything it has none for. -/
def extended : Encoder := ⟨fun
  | .duration d => some (inSeconds d)
  | n => some ((standard.fallback n).getD (described n))⟩

/-! ## Encoders made of others -/

/-- The encoder that gives back what it is asked about. -/
def unchanged : Encoder := ⟨some⟩

/-- The number that a text of plain digits spells, if it fits 32 bits. A plus
sign in front is allowed. -/
def counter? (s : String) : Option Nat :=
  let digits := match s.toList with
    | '+' :: rest => rest
    | all => all
  if digits.isEmpty || !digits.all Char.isDigit then none
  else
    let n := digits.foldl (fun n c => n * 10 + (c.toNat - '0'.toNat)) 0
    if n < 0x100000000 then some n else none

/-- The encoder that counts foreign values down to the text `done`. -/
def countdown : Encoder := ⟨fun
  | .foreign typeName repr =>
    (counter? repr).map fun n =>
      if n = 0 then .string "done" else .foreign typeName (n - 1).repr
  | _ => none⟩

/-- The encoder that goes by type names first: the first row of a name decides,
and names without a row are left to `base`. -/
def byName (rows : List (String × Option Node)) (base : Encoder) : Encoder :=
  ⟨fun n => (rows.lookup n.typeName).getD (base.fallback n)⟩

end Encoder

end DocStore
