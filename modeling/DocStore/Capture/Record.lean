import DocStore.Capture.Describe
/-!
# Records of described values

A type that names itself, and perhaps a field that tells its values apart,
has its values as records: the rendering is what the description says. A
description that fails renders to a foreign value with the error's wording.
-/

namespace DocStore

/-- **Types whose values are records.** -/
class Recordable (α : Type) extends Describe α where
  /-- The name that labels show. -/
  typeName : String
  /-- What tells a value from others of its type. -/
  identity : α → Option String := fun _ => none

/-- The rendering of a described record of the given type. -/
def Node.renderedBy (typeName : String) (p : Program) : Node :=
  match p.capture with
  | .ok n => n
  | .error e => .foreign typeName e.message

/-- **A value as a record.** `share` tells this record from others that are
equal to it. -/
def Node.ofRecord {α : Type} [Recordable α] (share : Nat) (v : α) : Node :=
  let typeName := Recordable.typeName α
  .record ⟨typeName, Recordable.identity v, share⟩
    (some (Node.renderedBy typeName (describe v)))

end DocStore
