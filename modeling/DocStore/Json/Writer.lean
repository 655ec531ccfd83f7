import DocStore.Decimal.Layout
import DocStore.Json.Basic
/-!
# Writing JSON

`Json.pretty` is the text of a value: one element or member a line, four
spaces for each level, and nothing between the brackets of an empty
container.
-/

namespace DocStore

/-- Floats in JSON always show a fraction or an exponent; they are positional
from `10 ^ -5` up to, and without, `10 ^ 16`. -/
def Number.layout : Decimal.Layout :=
  { positional := fun e => -5 ≤ e && e < 16, keepFraction := true, tie := .toEven }

/-- The text of a number. -/
def Number.text : Number → String
  | .whole n _ _ => n.repr
  | .float x _ => Number.layout.text x

namespace Json

/-- A character as it stands inside a JSON string: quotes, backslashes and
controls are escaped, all else is itself. -/
def stringChar (c : Char) : List Char :=
  match c with
  | '"' => ['\\', '"']
  | '\\' => ['\\', '\\']
  | '\x08' => ['\\', 'b']
  | '\x0c' => ['\\', 'f']
  | '\n' => ['\\', 'n']
  | '\r' => ['\\', 'r']
  | '\t' => ['\\', 't']
  | c =>
    if c.toNat < 0x20 then
      ['\\', 'u', '0', '0', Nat.digitChar (c.toNat / 16), Nat.digitChar (c.toNat % 16)]
    else [c]

/-- Adds a JSON string to the end of `out`. -/
def writeString (out s : String) : String :=
  (s.toList.foldl (fun out c => (stringChar c).foldl String.push out) (out.push '"')).push '"'

/-- Starts a line at the given level. -/
def newLine (out : String) (level : Nat) : String :=
  (List.replicate (4 * level) ' ').foldl String.push (out.push '\n')

mutual

/-- Adds the text of a value that stands at the given level. -/
def write (level : Nat) (out : String) : Json → String
  | .null => out ++ "null"
  | .bool b => out ++ if b then "true" else "false"
  | .number n => out ++ n.text
  | .string s => writeString out s
  | .array [] => out ++ "[]"
  | .array (v :: rest) =>
    let first := write (level + 1) (newLine (out.push '[') (level + 1)) v
    (newLine (writeItems (level + 1) first rest) level).push ']'
  | .object [] => (out.push '\x7b').push '\x7d'
  | .object ((name, v) :: rest) =>
    let named := writeString (newLine (out.push '\x7b') (level + 1)) name ++ ": "
    let first := write (level + 1) named v
    (newLine (writeMembers (level + 1) first rest) level).push '\x7d'

/-- Adds the elements after the first, each behind a comma. -/
def writeItems (level : Nat) (out : String) : List Json → String
  | [] => out
  | v :: rest => writeItems level (write level (newLine (out.push ',') level) v) rest

/-- Adds the members after the first, each behind a comma. -/
def writeMembers (level : Nat) (out : String) : List (String × Json) → String
  | [] => out
  | (name, v) :: rest =>
    let named := writeString (newLine (out.push ',') level) name ++ ": "
    writeMembers level (write level named v) rest

end

/-- **The text of a value.** -/
def pretty (v : Json) : String := write 0 "" v

end Json

end DocStore
