import DocStore.Capture.Describe
import DocStore.Saving.Save
/-!
# Documents as nodes

A JSON value becomes a node in two ways. It is taken as it stands, each number in the
first of the two integer forms that has it; or it describes itself, whole numbers
unsigned where they can be and members as calls of a map, and the description is
captured. Both ways lead to the same node (`capture_document`).
-/

namespace DocStore

/-- **A number is captured as it stands**: whichever kind it describes itself by, the
signed form has the numbers below `2 ^ 63` and the unsigned one the others. -/
theorem Number.capture_describe (n : Number) : n.describe.capture = .ok (Node.ofNumber n) := by
  cases n with
  | float x finite => rfl
  | whole n lower upper =>
    have hnode : Node.ofInt? n = some (Node.ofNumber (.whole n lower upper)) := by
      rw [Node.ofInt?, Node.ofNumber]
      by_cases hsigned : n < 0x8000000000000000
      · rw [if_pos (by simp [lower, hsigned]), if_pos hsigned]
      · have hpositive : 0 ≤ n := by omega
        rw [if_neg (by simp [hsigned]), if_pos (by simp [hpositive, upper]), if_neg hsigned]
    rw [Number.describe, Program.capture, IntKind.toNode, hnode, Option.getD_some]

mutual

/-- **A document that describes itself is captured as the node it is**, however deep its
lists and objects lie in one another. -/
theorem Json.capture_describe (v : Json) : v.describe.capture = .ok (Node.ofJson v) := by
  match v with
  | .null | .bool _ | .string _ => rfl
  | .number n => exact n.capture_describe
  | .array items =>
    rw [Json.describe, Program.capture, Json.captureItems_describe items, Node.ofJson]
    rfl
  | .object members =>
    rw [Json.describe, Program.capture, Json.captureCalls_describe members, Node.ofJson]
    rfl

theorem Json.captureItems_describe (items : List Json) :
    Program.captureItems (Json.describeItems items) = .ok (Node.ofJsonItems items) := by
  match items with
  | [] => rfl
  | v :: rest =>
    rw [Json.describeItems, Program.captureItems, Json.capture_describe v,
      Json.captureItems_describe rest, Node.ofJsonItems]
    rfl

/-- Between two members no key waits. -/
theorem Json.captureCalls_describe (members : List (String × Json)) :
    Program.captureCalls none (Json.describeMembers members) =
      .ok (Node.ofJsonMembers members) := by
  match members with
  | [] => rfl
  | (name, v) :: rest =>
    have hkey : Program.captureCalls none (Json.describeMembers ((name, v) :: rest)) =
        Program.captureCalls (some (.string name))
          (.value v.describe :: Json.describeMembers rest) := rfl
    rw [hkey, Program.captureCalls, Json.capture_describe v, Json.captureCalls_describe rest,
      Node.ofJsonMembers]
    rfl

end

/-- **Both ways of taking a document as a node agree.** Capturing what a JSON value says of
itself always succeeds, and gives the node that the value is as it stands. So it is saved
alike either way, whatever the options, the tree and the path. -/
theorem capture_document (v : Json) :
    (describe v).capture = .ok (toNode v) ∧
    ∀ {σ : Type} (current : σ) (o : SaveOptions) (budget : Nat) (t : FileTree) (path : RawText)
        (tries : List Nat),
      saveDescribed current o budget t path (describe v) tries =
        save current o budget t path (toNode v) tries := by
  have hcapture : (describe v).capture = .ok (toNode v) := v.capture_describe
  refine ⟨hcapture, fun current o budget t path tries => ?_⟩
  rw [saveDescribed, hcapture]

/-- The last number of the signed form, and the next one. -/
example :
    (describe (Json.array [.number (.whole 0x7fffffffffffffff (by decide) (by decide)),
      .number (.whole 0x8000000000000000 (by decide) (by decide))])).capture =
    .ok (.array [.int 0x7fffffffffffffff, .uint 0x8000000000000000]) := rfl

end DocStore
