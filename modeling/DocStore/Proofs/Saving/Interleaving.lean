import DocStore.Proofs.Saving.Temporary
import Mathlib.Logic.Function.Basic
import Mathlib.Logic.Relation
/-!
# Replacements side by side

Any number of replacements at work on one tree, one act at a time and in any
order. An act may fail, and a replacement may crash between two acts and never
move again. A temporary file gets a name that none had before, as exclusive
creation under random names provides. `used`, `landed`, `left` and `passedOver`
have no part in what happens: they only record it.
-/

namespace DocStore

namespace Phase

/-- The temporary file that a replacement works with. -/
def temp? : Phase → Option Temporary
  | .writing temp _ | .syncing temp | .opening temp | .renaming temp | .removing temp _ =>
    some temp
  | .preparing | .creating | .finished _ => none

/-- The temporary file that is still to be renamed or removed. -/
def live? : Phase → Option Temporary
  | .writing temp _ | .syncing temp | .opening temp | .renaming temp | .removing temp (.error _) =>
    some temp
  | .removing _ (.ok _) | .preparing | .creating | .finished _ => none

/-- Whether the rename is done. -/
def HasLanded : Phase → Prop
  | .removing _ (.ok _) | .finished (.ok _) => True
  | _ => False

theorem hasLanded_finished {outcome : Except IoError Unit} :
    (finished outcome).HasLanded ↔ outcome = .ok () := by
  cases outcome with
  | ok _ => exact iff_of_true trivial rfl
  | error e => exact iff_of_false id (by simp)

/-- Whether an act leads from this phase to that by renaming. -/
def lands : Phase → Phase → Bool
  | .renaming _, .removing _ (.ok _) => true
  | _, _ => false

end Phase

namespace Temporary

/-- **Whether a temporary file is passed over** where it should be removed: its path leads
nowhere, so it is taken for gone. -/
def isPassedOver (temp : Temporary) (t : FileTree) : Bool := !t.leadsSomewhere temp.path

/-- **Whether the removal of a temporary file fails** on its own: it is tried, and the
system refuses. -/
def removalFails (temp : Temporary) (t : FileTree) : Bool :=
  t.leadsSomewhere temp.path && !(t.remove temp.path).isOk

end Temporary

/-- **Replacements side by side**: the tree they share, and how far each has
come. -/
structure Interleaving (ι : Type) where
  tree : FileTree
  phase : ι → Phase
  crashed : List ι
  /-- Where temporary files were created so far. -/
  used : List Location
  /-- Who renamed a temporary file over the target, the latest first. -/
  landed : List ι
  /-- The temporary files whose removal failed. -/
  left : List Location
  /-- The temporary files that were passed over. -/
  passedOver : List Location

namespace Interleaving

variable {ι : Type}

/-- Nobody has begun. -/
def start (t : FileTree) : Interleaving ι :=
  { tree := t, phase := fun _ => .preparing, crashed := [], used := [], landed := [], left := [],
    passedOver := [] }

/-- Replacements that have no temporary files, and had none. -/
def idle (t : FileTree) (phase : ι → Phase) : Interleaving ι := { start t with phase }

/-- The temporary file that stays behind with the act at hand, if it does: only a
removal leaves one, and only one that was not renamed. -/
def leaves (stays : Temporary → Bool) : Phase → List Location
  | .removing temp (.error _) => if stays temp then [temp.location] else []
  | _ => []

/-- The temporary files that stay for good. -/
def abandoned (s : Interleaving ι) : List Location := s.left ++ s.passedOver

@[simp] theorem mem_abandoned {s : Interleaving ι} {l : Location} :
    l ∈ s.abandoned ↔ l ∈ s.left ∨ l ∈ s.passedOver := List.mem_append

/-- **What the target has to be**: what it was, or what the latest rename put
there. -/
def targetEntry (r : ι → Replacement) (was : Option Entry) : List ι → Option Entry
  | [] => was
  | i :: _ => some (.file (r i).mode (r i).content)

theorem targetEntry_eq (r : ι → Replacement) (was : Option Entry) (landed : List ι) :
    targetEntry r was landed = was ∨
      ∃ i, targetEntry r was landed = some (.file (r i).mode (r i).content) := by
  cases landed with
  | nil => exact Or.inl rfl
  | cons i rest => exact Or.inr ⟨i, rfl⟩

/-- Once somebody has renamed, the target is a file. -/
theorem exists_targetEntry (r : ι → Replacement) (was : Option Entry) {landed : List ι}
    (h : landed ≠ []) : ∃ mode content, targetEntry r was landed = some (.file mode content) := by
  cases landed with
  | nil => exact absurd rfl h
  | cons i rest => exact ⟨_, _, rfl⟩

variable [DecidableEq ι]

/-- A temporary file is created. -/
def create (s : Interleaving ι) (i : ι) (t : FileTree) (temp : Temporary)
    (content : List UInt8) : Interleaving ι :=
  { s with
    tree := t
    phase := Function.update s.phase i (.writing temp content)
    used := temp.location :: s.used }

/-- One act of a replacement. -/
def act (r : ι → Replacement) (s : Interleaving ι) (i : ι) (chunk : Nat) : Interleaving ι :=
  let after := (r i).step chunk s.tree (s.phase i)
  { s with
    tree := after.1
    phase := Function.update s.phase i after.2
    landed := if (s.phase i).lands after.2 then i :: s.landed else s.landed
    left := leaves (·.removalFails s.tree) (s.phase i) ++ s.left
    passedOver := leaves (·.isPassedOver s.tree) (s.phase i) ++ s.passedOver }

theorem phase_create {s : Interleaving ι} {i : ι} {t : FileTree} {temp : Temporary}
    {content : List UInt8} : (s.create i t temp content).phase i = .writing temp content :=
  Function.update_self ..

/-- The act at hand fails. -/
def fail (s : Interleaving ι) (i : ι) (e : IoError) : Interleaving ι :=
  { s with
    phase := Function.update s.phase i ((s.phase i).fail e)
    left := leaves (fun _ => true) (s.phase i) ++ s.left }

theorem phase_fail {s : Interleaving ι} {i : ι} {e : IoError} :
    (s.fail i e).phase i = (s.phase i).fail e := Function.update_self ..

/-- **What may happen next.** -/
inductive Move (r : ι → Replacement) (s : Interleaving ι) : Interleaving ι → Prop
  /-- One of the directories that lead to the target is created. -/
  | makeDirectory {i : ι} {p : RawText} {t : FileTree} (hup : i ∉ s.crashed)
      (hphase : s.phase i = .preparing) (hdirs : (r i).createDirs = true)
      (hp : p ∈ Path.ancestors (r i).directory) (hmake : s.tree.makeDirectory p = .ok t) :
      Move r s { s with tree := t }
  /-- A temporary file is created where none was before. -/
  | create {i : ι} {k : Nat} {t : FileTree} {temp : Temporary} (hup : i ∉ s.crashed)
      (hphase : s.phase i = .creating) (hcreate : (r i).createNth s.tree k = .ok (t, temp))
      (hfresh : temp.location ∉ s.used) : Move r s (s.create i t temp (r i).content)
  /-- Any other act, a write in a chunk of any length. -/
  | act {i : ι} (chunk : Nat) (hup : i ∉ s.crashed) (hphase : s.phase i ≠ .creating) :
      Move r s (s.act r i chunk)
  /-- The act at hand fails, whatever it is. -/
  | fail {i : ι} (e : IoError) (hup : i ∉ s.crashed) : Move r s (s.fail i e)
  /-- A replacement stops for good. -/
  | crash (i : ι) : Move r s { s with crashed := i :: s.crashed }

/-- **What may happen in time.** -/
def Reaches (r : ι → Replacement) : Interleaving ι → Interleaving ι → Prop :=
  Relation.ReflTransGen (Move r)

end Interleaving

end DocStore
