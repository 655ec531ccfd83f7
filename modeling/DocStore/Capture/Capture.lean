import DocStore.Capture.Program
import DocStore.Encoding.Error
import DocStore.Node.Convert
/-!
# Capturing descriptions

`Program.capture` runs a description and keeps everything it says as a
node. Nothing is refused here: floats that are not finite, byte strings, keys
of any kind and whole numbers past 64 bits are kept for an encoder to judge.
It fails only if the description itself does, with its first error.

A number that is announced is a hint how much storage to set aside. It need not be
right, and nothing here depends on it. A hint for more storage than a machine can
set aside stops the capture of a description that would otherwise go through; memory
has no limit here, and so that is not part of `Program.capture`.
-/

namespace DocStore

/-- A whole number as a node, as a foreign value past 64 bits. -/
def IntKind.toNode (kind : IntKind) (n : Int) : Node :=
  (Node.ofInt? n).getD (.foreign kind.name n.repr)

/-- The payload of an alternative under the name of the alternative. -/
def Node.tagged (variant : String) (payload : Node) : Node :=
  .object [(.string variant, payload)]

/-- The error of a map value that no key precedes. -/
def EncodeError.valueBeforeKey : EncodeError :=
  .custom "serialize_value called before serialize_key"

mutual

/-- **The node that a description says**, or its first error, whatever number of
elements is announced. -/
def Program.capture : Program → Except EncodeError Node
  | .bool b => .ok (.bool b)
  | .integer kind n => .ok (kind.toNode n)
  | .float32 x => .ok (.float x.toFloat)
  | .float64 x => .ok (.float x)
  | .char c => .ok (.string c.toString)
  | .text s => .ok (.string s)
  | .bytes bs => .ok (.bytes bs)
  | .absent => .ok .null
  | .present inner => inner.capture
  | .unit => .ok .null
  | .unitProduct _ => .ok .null
  | .unitVariant _ variant => .ok (.string variant)
  | .wrapper _ inner => inner.capture
  | .wrapperVariant _ variant inner => do
    let payload ← inner.capture
    pure (.tagged variant payload)
  | .list _ items => do
    let nodes ← Program.captureItems items
    pure (.array nodes)
  | .tuple items => do
    let nodes ← Program.captureItems items
    pure (.array nodes)
  | .tupleProduct _ items => do
    let nodes ← Program.captureItems items
    pure (.array nodes)
  | .tupleVariant _ variant items => do
    let nodes ← Program.captureItems items
    pure (.tagged variant (.array nodes))
  | .map _ calls => do
    let entries ← Program.captureCalls none calls
    pure (.object entries)
  | .product _ fields => do
    let entries ← Program.captureFields fields
    pure (.object entries)
  | .productVariant _ variant fields => do
    let entries ← Program.captureFields fields
    pure (.tagged variant (.object entries))
  | .fail message => .error (.custom message)

/-- The nodes of elements, in order. -/
def Program.captureItems : List Program → Except EncodeError (List Node)
  | [] => .ok []
  | p :: rest => do
    let node ← p.capture
    let nodes ← Program.captureItems rest
    pure (node :: nodes)

/-- The entries of a map while `pending` waits for its value. A later key takes
the place of a pending one, and a value is refused before it runs if no key is
pending. -/
def Program.captureCalls (pending : Option Key) :
    List MapCall → Except EncodeError (List (Key × Node))
  | [] => .ok []
  | .key p :: rest => do
    let node ← p.capture
    Program.captureCalls (some node.toKey) rest
  | .value p :: rest =>
    match pending with
    | none => .error .valueBeforeKey
    | some key => do
      let node ← p.capture
      let entries ← Program.captureCalls none rest
      pure ((key, node) :: entries)

/-- The entries of a product, one for each field that is given. -/
def Program.captureFields : List Field → Except EncodeError (List (Key × Node))
  | [] => .ok []
  | .skipped _ :: rest => Program.captureFields rest
  | .given name p :: rest => do
    let node ← p.capture
    let entries ← Program.captureFields rest
    pure ((.string name, node) :: entries)

end

end DocStore
