import Std.Data.ExtTreeMap
import DocStore.Json.Reader.Value
/-!
# Reading values of a type

`Decodable α` reads a JSON text straight into `α`. A text that is JSON but
not of the type is refused with what it met and what it expected; the place
of such a complaint is behind a scalar, in front of a container's bracket,
and behind the whole container for what is wrong with the container itself.
-/

namespace DocStore

/-- Types whose values are read from JSON. -/
class Decodable (α : Type) where
  /-- The reader of a value. -/
  read : Reader α

/-- Types whose values are the names of object members. -/
class DecodableKey (κ : Type) where
  /-- The reader of a name, called on its opening quote. -/
  readKey : Reader κ

namespace Reader

variable {α β κ : Type}

/-- **Refuses** the value at the front, of whatever type it is. -/
def refuse (expected : String) (left : List UInt8) : Except Fault (α × List UInt8) := do
  let left := skipSpace left
  match left with
  | [] => stopAt .endOfValue []
  | b :: rest =>
    match b.toNat with
    | 0x6E => stop (.wrongType .null expected) (← word nullTail rest)
    | 0x74 => stop (.wrongType (.bool true) expected) (← word trueTail rest)
    | 0x66 => stop (.wrongType (.bool false) expected) (← word falseTail rest)
    | 0x2D =>
      let (n, rest) ← number true rest
      stop (.wrongType (.number n) expected) rest
    | 0x22 =>
      let (s, rest) ← string rest
      stop (.wrongType (.string s) expected) rest
    | 0x5B => stop (.wrongType .array expected) left
    | 0x7B => stop (.wrongType .object expected) left
    | _ =>
      if isDigit b then
        let (n, rest) ← number false left
        stop (.wrongType (.number n) expected) rest
      else stopAt .noValue left

/-- The first byte of the value at the front. -/
def front (left : List UInt8) : Option UInt8 := (skipSpace left).head?

/-- Reads a number, refusing all else. -/
def numberOr (expected : String) (left : List UInt8) :
    Except Fault (Number × List UInt8) :=
  let left := skipSpace left
  match left with
  | b :: rest =>
    if b == 0x2D then number true rest
    else if isDigit b then number false left
    else refuse expected left
  | [] => refuse expected []

/-- Reads a whole number from `low` up to `high`. -/
def wholeBetween (low high : Int) (expected : String) (left : List UInt8) :
    Except Fault (Int × List UInt8) := do
  let (n, left) ← numberOr expected left
  match n with
  | .whole i _ _ =>
    if low ≤ i && i ≤ high then pure (i, left) else stop (.outOfRange n expected) left
  | .float .. => stop (.wrongType (.number n) expected) left

/-- Reads a list of any length. -/
def list (item : Reader α) : Reader (List α) := fun left =>
  match skipSpace left with
  | b :: rest => if b == 0x5B then items item rest else refuse "a sequence" left
  | [] => refuse "a sequence" left

/-- What is left behind the end of a container that was refused: its closing
bracket is taken if it comes next. -/
def pastClosing (closing : UInt8) (left : List UInt8) : List UInt8 :=
  let left := skipSpace left
  match left with
  | b :: rest => if b == closing then rest else left
  | [] => []

/-- Refuses a list of `n` elements at its closing bracket. -/
def tooShort (n : Nat) (expected : String) (left : List UInt8) :
    Except Fault (α × List UInt8) :=
  stop (.wrongLength n expected) (pastClosing 0x5D left)

/-- Reads the element at index `n` of a list with a fixed number of them, from
behind the bracket or the element before it. -/
def element (n : Nat) (expected : String) (item : Reader α) (left : List UInt8) :
    Except Fault (α × List UInt8) :=
  let left := skipSpace left
  match left with
  | [] => stopAt .endOfList []
  | b :: rest =>
    if b == 0x5D then tooShort n expected left
    else if n = 0 then item left
    else if b == 0x2C then
      let rest := skipSpace rest
      match rest with
      | [] => stopAt .endOfValue []
      | c :: _ => if c == 0x5D then stopAt .trailingComma rest else item rest
    else stopAt .noListComma left

/-- Reads the closing bracket of a list with a fixed number of elements. -/
def closeList (left : List UInt8) : Except Fault (List UInt8) :=
  let left := skipSpace left
  match left with
  | [] => stopAt .endOfList []
  | b :: rest =>
    if b == 0x5D then .ok rest
    else if b == 0x2C then
      let rest := skipSpace rest
      match rest with
      | c :: _ => if c == 0x5D then stopAt .trailingComma rest else stopAt .trailingCharacters rest
      | [] => stopAt .trailingCharacters []
    else stopAt .trailingCharacters left

/-- Reads a list of exactly two elements. -/
def pair (first : Reader α) (second : Reader β) : Reader (α × β) := fun left =>
  let expected := "a tuple of size 2"
  match skipSpace left with
  | b :: rest =>
    if b == 0x5B then do
      let (x, rest) ← element 0 expected first rest
      let (y, rest) ← element 1 expected second rest
      let rest ← closeList rest
      pure ((x, y), rest)
    else refuse expected left
  | [] => refuse expected left

/-- Reads a name that is any text. -/
def textKey : Reader String := fun left => string (left.drop 1)

/-- Reads a name that is a whole number from `low` up to `high`. -/
def wholeKey (low high : Int) (expected : String) : Reader Int := fun left => do
  let left := left.drop 1
  match left with
  | [] => stop .keyNotNumber []
  | b :: _ =>
    if isDigit b || b == 0x2D then
      let (n, left) ← wholeBetween low high expected left
      match left with
      | c :: rest => if c == 0x22 then pure (n, rest) else stopAt .noQuote left
      | [] => stopAt .noQuote []
    else stop .keyNotNumber left

/-- Reads one member of a map; the last one of a name counts. -/
def entry [Ord κ] [Std.TransOrd κ] (key : Reader κ) (value : Reader α)
    (map : Std.ExtTreeMap κ α compare) : Reader (Std.ExtTreeMap κ α compare) := fun left => do
  let (k, left) ← key left
  let left ← colon left
  let (v, left) ← value left
  pure (map.insert k v, left)

/-- Reads an object as a map sorted by its keys. -/
def map [Ord κ] [Std.TransOrd κ] (key : Reader κ) (value : Reader α) :
    Reader (Std.ExtTreeMap κ α compare) := fun left =>
  match skipSpace left with
  | b :: rest => if b == 0x7B then fields (entry key value) ∅ rest else refuse "a map" left
  | [] => refuse "a map" left

end Reader

/-! ## The types that are read -/

open Reader

instance : Decodable Json := ⟨Json.read⟩

instance : Decodable Int64 := ⟨fun left => do
  let (n, left) ← wholeBetween (-0x8000000000000000) 0x7FFFFFFFFFFFFFFF "i64" left
  pure (Int64.ofInt n, left)⟩

instance : Decodable UInt8 := ⟨fun left => do
  let (n, left) ← wholeBetween 0 255 "u8" left
  pure (UInt8.ofNat n.toNat, left)⟩

instance : Decodable UInt16 := ⟨fun left => do
  let (n, left) ← wholeBetween 0 65535 "u16" left
  pure (UInt16.ofNat n.toNat, left)⟩

instance : Decodable Float := ⟨fun left => do
  let (n, left) ← numberOr "f64" left
  match n with
  | .float x _ => pure (x, left)
  | .whole i _ _ =>
    pure (if 0 ≤ i then (UInt64.ofNat i.toNat).toFloat else (Int64.ofInt i).toFloat, left)⟩

instance : Decodable Bool := ⟨fun left =>
  match skipSpace left with
  | b :: rest =>
    if b == 0x74 then do let rest ← word trueTail rest; pure (true, rest)
    else if b == 0x66 then do let rest ← word falseTail rest; pure (false, rest)
    else refuse "a boolean" left
  | [] => refuse "a boolean" left⟩

instance : Decodable String := ⟨fun left =>
  match skipSpace left with
  | b :: rest => if b == 0x22 then string rest else refuse "a string" left
  | [] => refuse "a string" left⟩

instance : Decodable Unit := ⟨fun left =>
  match skipSpace left with
  | b :: rest =>
    if b == 0x6E then do let rest ← word nullTail rest; pure ((), rest)
    else refuse "unit" left
  | [] => refuse "unit" left⟩

instance {α : Type} [Decodable α] : Decodable (Option α) := ⟨fun left =>
  let some' : Except Fault (Option α × List UInt8) := do
    let (v, left) ← Decodable.read left
    pure (some v, left)
  match skipSpace left with
  | b :: rest => if b == 0x6E then do let rest ← word nullTail rest; pure (none, rest) else some'
  | [] => some'⟩

instance {α : Type} [Decodable α] : Decodable (List α) := ⟨list Decodable.read⟩

instance {α β : Type} [Decodable α] [Decodable β] : Decodable (α × β) :=
  ⟨pair Decodable.read Decodable.read⟩

instance : DecodableKey String := ⟨textKey⟩

instance : DecodableKey Int8 := ⟨fun left => do
  let (n, left) ← wholeKey (-128) 127 "i8" left
  pure (Int8.ofInt n, left)⟩

instance {κ α : Type} [Ord κ] [Std.TransOrd κ] [DecodableKey κ] [Decodable α] :
    Decodable (Std.ExtTreeMap κ α compare) :=
  ⟨map DecodableKey.readKey Decodable.read⟩

/-- **Reads a whole text** as a value of a type. -/
def decode (α : Type) [Decodable α] (text : List UInt8) : Except ReadError α :=
  Reader.whole Decodable.read text

end DocStore
