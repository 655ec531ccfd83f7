import DocStore.Node.Basic
/-!
# Descriptions

A value describes itself by a sequence of structural calls: scalars, lists,
maps, named products and the alternatives of a sum. A `Program` is such a
description as data. It may go wrong half way, by raising an error or by
giving a map a value before any key.
-/

namespace DocStore

/-- The widths of whole numbers. -/
inductive Width where
  | w8
  | w16
  | w32
  | w64
  | w128
  deriving DecidableEq, Repr

/-- How many bits a width has. -/
def Width.bits : Width → Nat
  | .w8 => 8
  | .w16 => 16
  | .w32 => 32
  | .w64 => 64
  | .w128 => 128

/-- **The kinds of whole number** a description tells apart. -/
inductive IntKind where
  | signed (width : Width)
  | unsigned (width : Width)
  deriving DecidableEq, Repr

namespace IntKind

/-- The least number of a kind. -/
def low : IntKind → Int
  | signed width => -(Nat.pow 2 (width.bits - 1) : Nat)
  | unsigned _ => 0

/-- The greatest number of a kind. -/
def high : IntKind → Int
  | signed width => (Nat.pow 2 (width.bits - 1) : Nat) - 1
  | unsigned width => (Nat.pow 2 width.bits : Nat) - 1

/-- The name of a kind. -/
def name : IntKind → String
  | signed width => "i" ++ width.bits.repr
  | unsigned width => "u" ++ width.bits.repr

end IntKind

mutual

/-- **A description of a value.** Lists and maps may announce how many elements or
entries follow. Tuples and products always do, and that number is left out. -/
inductive Program where
  | bool (b : Bool)
  | integer (kind : IntKind) (n : Int)
  | float32 (x : Float32)
  | float64 (x : Float)
  | char (c : Char)
  | text (s : String)
  | bytes (bs : List UInt8)
  | absent
  | present (inner : Program)
  | unit
  | unitProduct (name : String)
  | unitVariant (sum variant : String)
  | wrapper (name : String) (inner : Program)
  | wrapperVariant (sum variant : String) (inner : Program)
  | list (announced : Option Nat) (items : List Program)
  | tuple (items : List Program)
  | tupleProduct (name : String) (items : List Program)
  | tupleVariant (sum variant : String) (items : List Program)
  | map (announced : Option Nat) (calls : List MapCall)
  | product (name : String) (fields : List Field)
  | productVariant (sum variant : String) (fields : List Field)
  | fail (message : String)

/-- One call while a map is described. -/
inductive MapCall where
  | key (p : Program)
  | value (p : Program)

/-- One field of a product; a skipped one leaves no trace. -/
inductive Field where
  | given (name : String) (p : Program)
  | skipped (name : String)

end

instance : Inhabited Program := ⟨.unit⟩

/-- The calls that describe whole entries, each key right before its value. -/
def MapCall.ofEntries (entries : List (Program × Program)) : List MapCall :=
  entries.flatMap fun (k, v) => [.key k, .value v]

end DocStore
