import Std.Data.ExtTreeMap
import DocStore.Text.Utf8
/-!
# Raw texts

The system takes paths and names as bytes. Most are texts in UTF-8, but none
has to be. A text is written as its bytes, and a raw text is shown with each
broken character replaced.
-/

namespace DocStore

/-- **A text as the system takes it**: any bytes. -/
@[ext] structure RawText where
  bytes : List UInt8
  deriving DecidableEq, Repr

namespace RawText

/-- How many bytes there are. -/
def size (r : RawText) : Nat := r.bytes.length

/-- A text is taken as its bytes. -/
def ofText (s : String) : RawText := ⟨Text.bytes s⟩

/-- **The text that is shown for a raw one.** -/
def text (r : RawText) : String := Text.shown r.bytes

instance : Coe String RawText := ⟨ofText⟩

instance : Append RawText := ⟨fun r s => ⟨r.bytes ++ s.bytes⟩⟩

instance : Ord RawText := ⟨fun r s => compare r.bytes s.bytes⟩

instance : Std.TransOrd RawText where
  eq_swap {r s} := Std.OrientedOrd.eq_swap (a := r.bytes) (b := s.bytes)
  isLE_trans {r s u} := Std.TransOrd.isLE_trans (a := r.bytes) (b := s.bytes) (c := u.bytes)

instance : Std.LawfulEqOrd RawText where
  eq_of_compare h := RawText.ext (Std.LawfulEqCmp.eq_of_compare h)

@[simp] theorem bytes_append (r s : RawText) : (r ++ s).bytes = r.bytes ++ s.bytes := rfl

@[simp] theorem size_append (r s : RawText) : (r ++ s).size = r.size + s.size :=
  List.length_append

theorem append_assoc (r s u : RawText) : r ++ s ++ u = r ++ (s ++ u) :=
  RawText.ext (List.append_assoc ..)

theorem size_ofText (s : String) : (ofText s).size = s.utf8ByteSize := rfl

end RawText

end DocStore
