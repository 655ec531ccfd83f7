import DocStore.Encoding.Error
import DocStore.Files.IoError
import DocStore.Json.Fault
import DocStore.Text.Raw
/-!
# Failed loads and saves

What a caller is told when a document cannot be loaded or saved: the path as
given, the cause, and whether trying again can help.
-/

namespace DocStore

/-- A path is shown by its text. -/
instance : Coe RawText String := ⟨RawText.text⟩

/-- **Why a document was not loaded.** -/
inductive LoadError where
  | unreadable (path : RawText) (cause : IoError)
  | unparsable (path : RawText) (cause : ReadError)

/-- **Why a document was not saved.** -/
inductive SaveError where
  | unencodable (path : RawText) (message : String) (cause : EncodeError)
  | unwritable (path : RawText) (cause : IoError)

namespace LoadError

/-- The path as given. -/
def path : LoadError → RawText
  | .unreadable path _ => path
  | .unparsable path _ => path

/-- The wording of a failure. -/
def message : LoadError → String
  | .unreadable path cause => "failed to read '" ++ path ++ "': " ++ cause.message
  | .unparsable path cause => "failed to parse '" ++ path ++ "' as json: " ++ cause.message

/-- A file that cannot be read may become readable; a text stays what it is. -/
def isRetryable : LoadError → Bool
  | .unreadable .. => true
  | .unparsable .. => false

end LoadError

namespace SaveError

/-- The path as given. -/
def path : SaveError → RawText
  | .unencodable path _ _ => path
  | .unwritable path _ => path

/-- The wording of a failure. -/
def message : SaveError → String
  | .unencodable _ message _ => message
  | .unwritable path cause => "failed to write '" ++ path ++ "': " ++ cause.message

/-- A write may succeed later, unless the two ends of the replacement lie on
different devices; a value stays what it is. -/
def isRetryable : SaveError → Bool
  | .unencodable .. => false
  | .unwritable _ cause => cause.kind ≠ .crossesDevices

end SaveError

end DocStore
