import DocStore.Text.Unicode
/-!
# Quoted text and escaped bytes

How texts and byte strings are shown to a person: a text between double
quotes with everything invisible spelled out, a byte string in ASCII.
-/

namespace DocStore

namespace Text

/-- A character as it stands inside double quotes. -/
def quotedChar (c : Char) : List Char :=
  match c with
  | '\x00' => ['\\', '0']
  | '\t' => ['\\', 't']
  | '\r' => ['\\', 'r']
  | '\n' => ['\\', 'n']
  | '\\' => ['\\', '\\']
  | '"' => ['\\', '"']
  | c =>
    if 0x20 ≤ c.toNat && c.toNat < 0x7F then [c]
    else if Unicode.isVisible c then [c]
    else ['\\', 'u', '\x7b'] ++ Nat.toDigits 16 c.toNat ++ ['\x7d']

/-- **A text between double quotes**, for reading by a person. -/
def quoted (s : String) : String :=
  String.ofList ('"' :: (s.toList.flatMap quotedChar ++ ['"']))

/-- Two lower-case hexadecimal digits. -/
def hexPair (n : Nat) : List Char := [Nat.digitChar (n / 16 % 16), Nat.digitChar (n % 16)]

/-- A byte in ASCII: printable ones as they are, the rest escaped. -/
def asciiByte (b : UInt8) : List Char :=
  match b.toNat with
  | 0x09 => ['\\', 't']
  | 0x0A => ['\\', 'n']
  | 0x0D => ['\\', 'r']
  | n =>
    if n = 0x22 || n = 0x27 || n = 0x5C then ['\\', Char.ofNat n]
    else if 0x20 ≤ n && n < 0x7F then [Char.ofNat n]
    else '\\' :: 'x' :: hexPair n

/-- **A byte string in ASCII**, each byte read back from its own escape. -/
def asciiBytes (bs : List UInt8) : String := String.ofList (bs.flatMap asciiByte)

end Text

end DocStore
