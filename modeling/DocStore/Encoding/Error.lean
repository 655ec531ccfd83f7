import DocStore.Node.Display
/-!
# Why a node cannot be encoded

The causes and their wording. `custom` is raised by whoever describes a
value, with words of its own.
-/

namespace DocStore

/-- **Why a node has no JSON form.** -/
inductive EncodeError where
  | notFinite (x : Float)
  | invalidKey (name : String)
  | unsupported (typeName : String)
  | endlessFallback (typeName : String)
  | custom (message : String)

/-- The wording of a cause. -/
def EncodeError.message : EncodeError → String
  | .notFinite x => "float " ++ Node.floatText x ++ " is not valid json"
  | .invalidKey name => "key '" ++ name ++ "' is not a valid json object key"
  | .unsupported typeName => "value of type " ++ typeName ++ " is not json serializable"
  | .endlessFallback typeName => "encoder fallback for " ++ typeName ++ " did not terminate"
  | .custom message => message

end DocStore
