import DocStore.Text.Quoted
import DocStore.Json.Writer
/-!
# What can be wrong with a text

The causes for which a reader refuses a text, the place where it stopped,
and the wording of both. `Fault` is what a reader raises; `ReadError` adds
line and column, which need the whole text.
-/

namespace DocStore

/-- What stood where a value of another type was asked for. -/
inductive Met where
  | null
  | bool (b : Bool)
  | number (n : Number)
  | string (s : String)
  | array
  | object

/-- **Why a text was refused.** The last six are not about its form: it is
JSON, but not of the type asked for. -/
inductive Cause where
  | endOfList
  | endOfObject
  | endOfString
  | endOfValue
  | noColon
  | noListComma
  | noObjectComma
  | noWord
  | noValue
  | noQuote
  | badEscape
  | badNumber
  | numberOutOfRange
  | badCodePoint
  | bareControl
  | keyNotString
  | keyNotNumber
  | loneSurrogate
  | trailingComma
  | trailingCharacters
  | unfinishedSurrogate
  | tooDeep
  | wrongType (met : Met) (expected : String)
  | outOfRange (n : Number) (expected : String)
  | wrongLength (n : Nat) (expected : String)
  | missingField (name : String)
  | repeatedField (name : String)

/-- The kinds of cause a caller may tell apart. -/
inductive Cause.Category where
  | syntactic
  | endOfInput
  | data
  deriving DecidableEq, Repr

namespace Cause

/-- The category of a cause. -/
def category : Cause → Category
  | .endOfList | .endOfObject | .endOfString | .endOfValue => .endOfInput
  | .wrongType .. | .outOfRange .. | .wrongLength .. | .missingField _ | .repeatedField _ => .data
  | _ => .syntactic

end Cause

/-- How a number is named in a complaint about its type. -/
def Number.described : Number → String
  | .whole n _ _ => "integer `" ++ n.repr ++ "`"
  | .float x h => "floating point `" ++ (Number.float x h).text ++ "`"

/-- How a value is named in a complaint about its type. -/
def Met.described : Met → String
  | .null => "null"
  | .bool b => "boolean `" ++ (if b then "true" else "false") ++ "`"
  | .number n => n.described
  | .string s => "string " ++ Text.quoted s
  | .array => "sequence"
  | .object => "map"

/-- The wording of a cause, without its place. -/
def Cause.message : Cause → String
  | .endOfList => "EOF while parsing a list"
  | .endOfObject => "EOF while parsing an object"
  | .endOfString => "EOF while parsing a string"
  | .endOfValue => "EOF while parsing a value"
  | .noColon => "expected `:`"
  | .noListComma => "expected `,` or `]`"
  | .noObjectComma => "expected `,` or `\x7d`"
  | .noWord => "expected ident"
  | .noValue => "expected value"
  | .noQuote => "expected `\"`"
  | .badEscape => "invalid escape"
  | .badNumber => "invalid number"
  | .numberOutOfRange => "number out of range"
  | .badCodePoint => "invalid unicode code point"
  | .bareControl => "control character (\\u0000-\\u001F) found while parsing a string"
  | .keyNotString => "key must be a string"
  | .keyNotNumber => "invalid value: expected key to be a number in quotes"
  | .loneSurrogate => "lone leading surrogate in hex escape"
  | .trailingComma => "trailing comma"
  | .trailingCharacters => "trailing characters"
  | .unfinishedSurrogate => "unexpected end of hex escape"
  | .tooDeep => "recursion limit exceeded"
  | .wrongType met expected => "invalid type: " ++ met.described ++ ", expected " ++ expected
  | .outOfRange n expected => "invalid value: " ++ n.described ++ ", expected " ++ expected
  | .wrongLength n expected => "invalid length " ++ n.repr ++ ", expected " ++ expected
  | .missingField name => "missing field `" ++ name ++ "`"
  | .repeatedField name => "duplicate field `" ++ name ++ "`"

/-- **What a reader raises**: a cause, and how many bytes of the text lay
behind the place. -/
structure Fault where
  cause : Cause
  left : Nat

/-- A place in a text. The column counts the bytes of the line up to it. -/
structure Position where
  line : Nat
  column : Nat
  deriving DecidableEq, Repr

/-- The place right behind the given bytes. -/
def Position.behind (read : List UInt8) : Position :=
  { line := read.count 0x0A + 1
    column := (read.reverse.takeWhile (· != 0x0A)).length }

/-- **A refused text**: cause and place. -/
structure ReadError where
  cause : Cause
  position : Position

/-- The fault at its place in the text. -/
def Fault.inText (f : Fault) (text : List UInt8) : ReadError :=
  ⟨f.cause, Position.behind (text.take (text.length - f.left))⟩

/-- The full wording of a refusal. -/
def ReadError.message (e : ReadError) : String :=
  e.cause.message ++ " at line " ++ e.position.line.repr ++ " column " ++ e.position.column.repr

end DocStore
