import DocStore.Json.Reader.Number
import DocStore.Json.Reader.Text
/-!
# Reading values

`items` and `fields` read the inside of a list or an object for whatever
may stand in it. `Json.read` is the reader of any JSON value, at most 127
containers deep, and `Json.parse` reads a whole text.
-/

namespace DocStore

namespace Reader

variable {α σ : Type}

/-! ## Between the brackets -/

/-- Reads elements up to the closing bracket, from behind the opening one or
from behind an element. The fuel bounds the number of elements. -/
def itemsFrom (item : Reader α) :
    (fuel : Nat) → (first : Bool) → List α → List UInt8 → Except Fault (List α × List UInt8)
  | 0, _, _, left => stop .endOfList left
  | fuel + 1, first, read, left =>
    let next (left : List UInt8) : Except Fault (List α × List UInt8) :=
      match item left with
      | .ok (v, left) => itemsFrom item fuel false (v :: read) left
      | .error f => .error f
    let left := skipSpace left
    match left with
    | [] => stopAt .endOfList []
    | b :: rest =>
      if b == 0x5D then .ok (read.reverse, rest)
      else if first then next left
      else if b == 0x2C then
        let rest := skipSpace rest
        match rest with
        | [] => stopAt .endOfValue []
        | c :: _ => if c == 0x5D then stopAt .trailingComma rest else next rest
      else stopAt .noListComma left

/-- **Reads a list** from behind its opening bracket. -/
def items (item : Reader α) (left : List UInt8) : Except Fault (List α × List UInt8) :=
  itemsFrom item (left.length + 1) true [] left

/-- Reads members up to the closing brace, each with `entry`, which is called
on the opening quote of the name. The fuel bounds the number of members. -/
def fieldsFrom (entry : σ → Reader σ) :
    (fuel : Nat) → (first : Bool) → σ → List UInt8 → Except Fault (σ × List UInt8)
  | 0, _, _, left => stop .endOfObject left
  | fuel + 1, first, state, left =>
    let next (left : List UInt8) : Except Fault (σ × List UInt8) :=
      match entry state left with
      | .ok (state, left) => fieldsFrom entry fuel false state left
      | .error f => .error f
    let left := skipSpace left
    match left with
    | [] => stopAt .endOfObject []
    | b :: rest =>
      if b == 0x7D then .ok (state, rest)
      else if first then if b == 0x22 then next left else stopAt .keyNotString left
      else if b == 0x2C then
        let rest := skipSpace rest
        match rest with
        | [] => stopAt .endOfValue []
        | c :: _ =>
          if c == 0x22 then next rest
          else if c == 0x7D then stopAt .trailingComma rest
          else stopAt .keyNotString rest
      else stopAt .noObjectComma left

/-- **Reads an object** from behind its opening brace, folding its members. -/
def fields (entry : σ → Reader σ) (start : σ) (left : List UInt8) :
    Except Fault (σ × List UInt8) :=
  fieldsFrom entry (left.length + 1) true start left

/-- Reads the colon behind a name. -/
def colon (left : List UInt8) : Except Fault (List UInt8) :=
  let left := skipSpace left
  match left with
  | [] => stopAt .endOfObject []
  | b :: rest => if b == 0x3A then .ok rest else stopAt .noColon left

/-! ## Values -/

/-- One member, added to those before it. -/
def member (value : Reader Json) (members : List (String × Json)) :
    Reader (List (String × Json)) := fun left => do
  let (name, left) ← string (left.drop 1)
  let left ← colon left
  let (v, left) ← value left
  pure (Json.insertMember name v members, left)

/-- **Reads a value** inside which containers may be `depth` deep. -/
def value : (depth : Nat) → Reader Json := fun depth left =>
  let left := skipSpace left
  match left with
  | [] => stopAt .endOfValue []
  | b :: rest =>
    match b.toNat with
    | 0x6E => do let rest ← word nullTail rest; pure (.null, rest)
    | 0x74 => do let rest ← word trueTail rest; pure (.bool true, rest)
    | 0x66 => do let rest ← word falseTail rest; pure (.bool false, rest)
    | 0x2D => do let (n, rest) ← number true rest; pure (.number n, rest)
    | 0x22 => do let (s, rest) ← string rest; pure (.string s, rest)
    | 0x5B =>
      match depth with
      | 0 => stopAt .tooDeep left
      | depth + 1 => do
        let (vs, rest) ← items (value depth) rest
        pure (.array vs, rest)
    | 0x7B =>
      match depth with
      | 0 => stopAt .tooDeep left
      | depth + 1 => do
        let (members, rest) ← fields (member (value depth)) [] rest
        pure (.object members, rest)
    | _ =>
      if isDigit b then do let (n, rest) ← number false left; pure (.number n, rest)
      else stopAt .noValue left

end Reader

namespace Json

/-- How many containers may lie inside each other in a text that is read. -/
def depthLimit : Nat := 127

/-- The reader of any value. -/
def read : Reader Json := Reader.value depthLimit

/-- **Reads a whole text** as one value. -/
def parse (text : List UInt8) : Except ReadError Json := Reader.whole read text

end Json

end DocStore
