import DocStore.Decimal.Layout
import DocStore.Node.Basic
import DocStore.Text.Quoted
/-!
# Nodes as text

The form in which a node is shown to a person: close to JSON, but with a
form for everything a node can hold. It is not read back.
-/

namespace DocStore

/-- Floats for a person are positional at any size and show a fraction only
if they have one. -/
def Node.floatLayout : Decimal.Layout :=
  { positional := fun _ => true, keepFraction := false, tie := .up }

/-- Any float for a person. -/
def Node.floatText (x : Float) : String :=
  if x.isNaN then "NaN"
  else if x.isFinite then Node.floatLayout.text x
  else if Double.isNegative x then "-inf"
  else "inf"

mutual

/-- **A node for a person.** -/
def Node.text : Node → String
  | .null => "null"
  | .bool b => if b then "true" else "false"
  | .int i => i.toInt.repr
  | .uint u => u.toNat.repr
  | .float x => Node.floatText x
  | .string s => Text.quoted s
  | .array items => "[" ++ ", ".intercalate (Node.texts items) ++ "]"
  | .object entries => "\x7b" ++ ", ".intercalate (Node.entryTexts entries) ++ "\x7d"
  | .set items => "\x7b" ++ ", ".intercalate (Node.texts items) ++ "\x7d"
  | .timestamp t => t.text
  | .duration d => d.text
  | .bytes bs => "b\"" ++ Text.asciiBytes bs ++ "\""
  | .record tag _ => "<" ++ tag.label ++ ">"
  | .foreign _ repr => repr

/-- The texts of a list of nodes. -/
def Node.texts : List Node → List String
  | [] => []
  | v :: rest => Node.text v :: Node.texts rest

/-- The entries of an object; here, and only here, a text key is quoted. -/
def Node.entryTexts : List (Key × Node) → List String
  | [] => []
  | (.string s, v) :: rest => (Text.quoted s ++ ": " ++ Node.text v) :: Node.entryTexts rest
  | (key, v) :: rest => (Key.text key ++ ": " ++ Node.text v) :: Node.entryTexts rest

/-- **A key for a person**, texts as they are. -/
def Key.text : Key → String
  | .string s => s
  | .int i => i.toInt.repr
  | .uint u => u.toNat.repr
  | .float x => Node.floatText x
  | .bool b => if b then "true" else "false"
  | .null => "null"
  | .composite n => Node.text n

end

/-- A record tag spelled out field by field. -/
def RecordTag.description (t : RecordTag) : String :=
  let identity := match t.identity with
    | some id => "Some(" ++ Text.quoted id ++ ")"
    | none => "None"
  "Record \x7b type_name: " ++ Text.quoted t.typeName ++ ", identity: " ++ identity ++ " \x7d"

end DocStore
