import DocStore.Json.Reader.Text
/-!
# Passing over values

A value that nobody asks for is passed over without being built. Only its
form is checked: neither the range of its numbers nor the code points of its
strings, and it may be nested to any depth.
-/

namespace DocStore

namespace Reader

/-- Passes over the digits of an exponent, from behind its letter. -/
def skipExponent (left : List UInt8) : Except Fault (List UInt8) :=
  let left := match left with
    | b :: rest => if b == 0x2B || b == 0x2D then rest else left
    | [] => left
  match left with
  | [] => stop .badNumber []
  | b :: rest => if isDigit b then .ok (rest.dropWhile isDigit) else stop .badNumber rest

/-- Passes over a fraction, from behind its point. -/
def skipFraction (left : List UInt8) : Except Fault (List UInt8) :=
  match left with
  | [] => stopAt .badNumber []
  | b :: rest =>
    if isDigit b then
      let rest := rest.dropWhile isDigit
      match rest with
      | c :: after => if c == 0x65 || c == 0x45 then skipExponent after else .ok rest
      | [] => .ok []
    else stopAt .badNumber left

/-- Passes over a number, from behind its sign. -/
def skipNumber (left : List UInt8) : Except Fault (List UInt8) :=
  let after (left : List UInt8) : Except Fault (List UInt8) :=
    match left with
    | b :: rest =>
      if b == 0x2E then skipFraction rest
      else if b == 0x65 || b == 0x45 then skipExponent rest
      else .ok left
    | [] => .ok []
  match left with
  | [] => stop .badNumber []
  | b :: rest =>
    if b == 0x30 then
      match rest with
      | c :: _ => if isDigit c then stopAt .badNumber rest else after rest
      | [] => after rest
    else if isDigit b then after (rest.dropWhile isDigit)
    else stop .badNumber rest

/-- Passes over a string, from behind its opening quote. The fuel bounds the
bytes and escapes. -/
def skipString : Nat → List UInt8 → Except Fault (List UInt8)
  | 0, left => stop .endOfString left
  | _ + 1, [] => stop .endOfString []
  | fuel + 1, b :: left =>
    if b == 0x22 then .ok left
    else if b == 0x5C then
      match left with
      | [] => stop .endOfString []
      | c :: left =>
        if (escapedByte? c).isSome then skipString fuel left
        else if c == 0x75 then
          match hexFour left with
          | .ok (_, left) => skipString fuel left
          | .error f => .error f
        else stop .badEscape left
    else if b < 0x20 then stop .bareControl (b :: left)
    else skipString fuel left

/-- A container that is open while a value is passed over. -/
inductive Open where
  | list
  | object
  deriving DecidableEq

/-- Where passing over goes on: at a value inside these containers, the
innermost first, or nowhere. -/
inductive Skipped where
  | valueIn (around : List Open) (left : List UInt8)
  | done (left : List UInt8)

/-- Passes over a name and its colon. -/
def skipName (left : List UInt8) : Except Fault (List UInt8) := do
  let left := skipSpace left
  match left with
  | [] => stopAt .endOfObject []
  | b :: rest =>
    if b == 0x22 then
      let rest := skipSpace (← skipString (rest.length + 1) rest)
      match rest with
      | [] => stopAt .endOfObject []
      | c :: after => if c == 0x3A then pure after else stopAt .noColon rest
    else stopAt .keyNotString left

/-- Goes to the next value inside the containers, closing those that end. A
comma may come only behind a value. -/
def toNextValue (behindValue : Bool) :
    List Open → List UInt8 → Except Fault Skipped
  | [], left => .ok (.done left)
  | inner :: around, left =>
    let enter (left : List UInt8) : Except Fault Skipped :=
      match inner with
      | .list => .ok (.valueIn (inner :: around) left)
      | .object =>
        match skipName left with
        | .ok left => .ok (.valueIn (inner :: around) left)
        | .error f => .error f
    let left := skipSpace left
    match left with
    | [] => stopAt (match inner with | .list => .endOfList | .object => .endOfObject) []
    | b :: rest =>
      if behindValue && b == 0x2C then enter rest
      else if b == (match inner with | .list => 0x5D | .object => 0x7D) then
        toNextValue true around rest
      else if behindValue then
        stopAt (match inner with | .list => .noListComma | .object => .noObjectComma) left
      else enter left

/-- One value without containers, or the opening of one. -/
def skipFront (around : List Open) (left : List UInt8) : Except Fault Skipped := do
  let left := skipSpace left
  match left with
  | [] => stopAt .endOfValue []
  | b :: rest =>
    match b.toNat with
    | 0x6E => toNextValue true around (← word nullTail rest)
    | 0x74 => toNextValue true around (← word trueTail rest)
    | 0x66 => toNextValue true around (← word falseTail rest)
    | 0x2D => toNextValue true around (← skipNumber rest)
    | 0x22 => toNextValue true around (← skipString (rest.length + 1) rest)
    | 0x5B => toNextValue false (.list :: around) rest
    | 0x7B => toNextValue false (.object :: around) rest
    | _ =>
      if isDigit b then toNextValue true around (← skipNumber left)
      else stopAt .noValue left

/-- Passes over what is left of the value; the fuel bounds its parts. -/
def skipFrom : Nat → List Open → List UInt8 → Except Fault (List UInt8)
  | 0, _, left => stop .endOfValue left
  | fuel + 1, around, left =>
    match skipFront around left with
    | .error f => .error f
    | .ok (.done left) => .ok left
    | .ok (.valueIn around left) => skipFrom fuel around left

/-- **Passes over a value.** -/
def skip (left : List UInt8) : Except Fault (List UInt8) := skipFrom (left.length + 1) [] left

end Reader

end DocStore
