/-!
# JSON values

A JSON value with its numbers split into whole ones, which are exact from
`-2 ^ 63` up to `2 ^ 64`, and finite floats. Objects keep the order of
their members; that their names differ is a property (`Json.Distinct`)
and not part of the type, so that a reader may still meet a repetition.
-/

namespace DocStore

/-- **A JSON number.** Each whole number from `-2 ^ 63` up to `2 ^ 64` has one
form, and no float is infinite or not a number. -/
inductive Number where
  | whole (n : Int) (lower : -0x8000000000000000 ≤ n) (upper : n < 0x10000000000000000)
  | float (x : Float) (finite : x.isFinite = true)

/-- **A JSON value.** -/
inductive Json where
  | null
  | bool (b : Bool)
  | number (n : Number)
  | string (s : String)
  | array (items : List Json)
  | object (members : List (String × Json))
  deriving Inhabited

namespace Json

/-- The members with `name` bound to `value`: in the place of an earlier
member of that name, else at the end. -/
def insertMember (name : String) (value : Json) :
    List (String × Json) → List (String × Json)
  | [] => [(name, value)]
  | (n, v) :: rest =>
    if n = name then (n, value) :: rest else (n, v) :: insertMember name value rest

mutual

/-- Within every object the names of the members differ. -/
def Distinct : Json → Prop
  | .array items => DistinctAll items
  | .object members => (members.map (·.1)).Nodup ∧ DistinctMembers members
  | _ => True

/-- Every value of the list is `Distinct`. -/
def DistinctAll : List Json → Prop
  | [] => True
  | v :: rest => Distinct v ∧ DistinctAll rest

/-- Every member's value is `Distinct`. -/
def DistinctMembers : List (String × Json) → Prop
  | [] => True
  | (_, v) :: rest => Distinct v ∧ DistinctMembers rest

end

mutual

/-- How many containers lie around the innermost value. -/
def depth : Json → Nat
  | .array items => depthAll items + 1
  | .object members => depthMembers members + 1
  | _ => 0

/-- The greatest depth in a list. -/
def depthAll : List Json → Nat
  | [] => 0
  | v :: rest => max (depth v) (depthAll rest)

/-- The greatest depth among the values of members. -/
def depthMembers : List (String × Json) → Nat
  | [] => 0
  | (_, v) :: rest => max (depth v) (depthMembers rest)

end

end Json

end DocStore
