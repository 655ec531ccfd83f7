import DocStore.Capture.Record
import DocStore.Proofs.Diagnosis.Located
import DocStore.Proofs.Diagnosis.Roots
import DocStore.Proofs.Encoding.Sufficiency
import DocStore.Proofs.Saving.AllOrNothing
import DocStore.Typed.Samples
/-!
# Saving records

A value of a type with a record form is saved in two ways: as a record, which renders to
what the value says of itself, or as the description of the value. To an encoder that
renders records the record is one substitute in front of the captured node, and to the
search it is another root. So both ways write the same bytes or fail for the same cause,
and the reports differ by the label of the record alone (`saved_as_record`).
-/

namespace DocStore

variable {n : Node} {tag : RecordTag}

/-! ## What a description is captured as -/

theorem exists_of_bind_pure {β : Type} {x : Except EncodeError β} {f : β → Node}
    (h : (x >>= fun b => pure (f b)) = .ok n) : ∃ b, f b = n := by
  cases x with
  | ok b => exact ⟨b, Except.ok.inj h⟩
  | error e => cases h

theorem IntKind.toNode_ne_record (kind : IntKind) (i : Int) (rendering : Option Node) :
    kind.toNode i ≠ .record tag rendering := by
  rw [IntKind.toNode, Node.ofInt?]
  split
  · simp
  · split <;> simp

/-- **No description is captured as a record**: it has no call for one. -/
theorem Program.capture_ne_record (p : Program) (rendering : Option Node) :
    p.capture ≠ .ok (.record tag rendering) := by
  intro h
  match p with
  | .present inner | .wrapper _ inner => exact inner.capture_ne_record rendering h
  | .wrapperVariant _ _ _ | .list _ _ | .tuple _ | .tupleProduct _ _ | .tupleVariant _ _ _
  | .map _ _ | .product _ _ | .productVariant _ _ _ =>
    rw [Program.capture] at h
    obtain ⟨b, hb⟩ := exists_of_bind_pure h
    cases hb
  | .integer kind i => exact kind.toNode_ne_record i rendering (Except.ok.inj h)
  | .bool _ | .float32 _ | .float64 _ | .char _ | .text _ | .bytes _ | .absent | .unit
  | .unitProduct _ | .unitVariant _ _ | .fail _ => cases h

/-! ## A record in front of a node -/

namespace Encoder

variable {e : Encoder}

/-- **What is no record takes one substitute at most**, so it does not matter how many are in
front of it, up to the last but one. -/
theorem RendersRecords.encode_eq (he : e.RendersRecords)
    (hplain : ∀ tag rendering, n ≠ .record tag rendering) {chain chain' : Nat}
    (hchain : chain < chainLimit) (hchain' : chain' < chainLimit) (budget : Nat) :
    e.encode budget chain n = e.encode budget chain' n := by
  cases hnative : n.isNative with
  | true => exact encode_of_native hnative budget chain chain'
  | false =>
    cases budget with
    | zero => rfl
    | succ budget =>
      rw [encode_of_not_native hnative, encode_of_not_native hnative,
        if_neg (Nat.not_le.2 hchain), if_neg (Nat.not_le.2 hchain')]
      cases hsubstitute : e.fallback n with
      | none => rfl
      | some substitute =>
        exact encode_of_native (he.native n substitute hplain hnative hsubstitute) ..

/-- **A record encodes as what it renders to**, if that is no record. -/
theorem RendersRecords.toJson_record (he : e.RendersRecords)
    (hplain : ∀ tag' rendering, n ≠ .record tag' rendering) (budget : Nat) :
    e.toJson (budget + 1) (.record tag (some n)) = e.toJson budget n := by
  have hlimit : 1 < chainLimit := by decide
  rw [toJson, toJson, encode_of_substitute rfl (he.record tag (some n)) (by decide)]
  exact congrArg ExceptT.run (he.encode_eq hplain hlimit (by decide) budget)

/-- Within a budget past the height of the node both are done. -/
theorem RendersRecords.toJson_record_eq (he : e.RendersRecords) (hstock : e.Stock)
    (tag : RecordTag) (hplain : ∀ tag' rendering, n ≠ .record tag' rendering) {budget : Nat}
    (hbudget : n.height < budget) :
    ∃ result, e.toJson budget (.record tag (some n)) = some result ∧
      e.toJson budget n = some result := by
  obtain ⟨below, rfl⟩ : ∃ below, budget = below + 1 := ⟨budget - 1, by omega⟩
  obtain ⟨result, hresult⟩ :=
    Option.isSome_iff_exists.1 (hstock.isSome_toJson (Nat.le_of_lt_succ hbudget))
  refine ⟨result, (he.toJson_record hplain below).trans hresult, ?_⟩
  exact encode_extends (Nat.le_succ below) 0 n result hresult

end Encoder

/-! ## Both ways to save a value -/

theorem saveDescribed_of_capture {σ : Type} {p : Program} (h : p.capture = .ok n) (current : σ)
    (o : SaveOptions) (budget : Nat) (t : FileTree) (path : RawText) (tries : List Nat) :
    saveDescribed current o budget t path p tries = save current o budget t path n tries := by
  rw [saveDescribed, h]

section

variable {α : Type} [Recordable α]

/-- The tag of a value as a record. -/
def Recordable.recordTag (share : Nat) (v : α) : RecordTag :=
  ⟨Recordable.typeName α, Recordable.identity v, share⟩

theorem Node.ofRecord_eq {v : α} (h : (describe v).capture = .ok n) (share : Nat) :
    Node.ofRecord share v = .record (Recordable.recordTag share v) (some n) := by
  rw [Node.ofRecord, Node.renderedBy, h]
  rfl

/-- **A value is saved alike as a record and as it describes itself.** Let the description be
captured as a node, and let the encoder be one that renders records. Within every budget
past the height of the node both encode to the same value or fail for the same cause. So
either both saves write the text of that value, with the same outcome and log, or both
leave the tree as it is and give that cause. And there are findings such that the report on
the node has them under paths from `$` on, and the report on the record has the same
values in the same order, under paths that go on in the same way from `$` and the label. -/
theorem saved_as_record (e : Encoder) (he : e = .standard ∨ e = .extended) (share : Nat) (v : α)
    (n : Node) (hcapture : (describe v).capture = .ok n) (budget : Nat)
    (hbudget : n.height < budget) :
    (∃ result, e.toJson budget (.ofRecord share v) = some result ∧
      e.toJson budget n = some result) ∧
    (∀ {σ : Type} (current : σ) (o : SaveOptions) (t : FileTree) (path : RawText) (tries : List Nat),
      o.encoder = e →
        (∃ w, e.toJson budget n = some (.ok w) ∧
          save current o budget t path (.ofRecord share v) tries =
            some (saveText current o t path w.pretty tries) ∧
          saveDescribed current o budget t path (describe v) tries =
            some (saveText current o t path w.pretty tries)) ∨
        ∃ cause message message', e.toJson budget n = some (.error cause) ∧
          save current o budget t path (.ofRecord share v) tries =
            some (.failed current t (.unencodable path message cause)) ∧
          saveDescribed current o budget t path (describe v) tries =
            some (.failed current t (.unencodable path message' cause))) ∧
    ∃ found : Report,
      e.diagnose budget n = found.map (fun (path, value) => ("$" ++ path, value)) ∧
      e.diagnose budget (.ofRecord share v) =
        found.map fun (path, value) =>
          ("$(" ++ (Recordable.recordTag share v).label ++ ")" ++ path, value) := by
  have hrenders : e.RendersRecords := by
    rcases he with rfl | rfl
    · exact Encoder.rendersRecords_standard
    · exact Encoder.rendersRecords_extended
  have hstock : e.Stock := by
    rcases he with rfl | rfl
    · exact .standard
    · exact .extended
  have hplain : ∀ tag rendering, n ≠ .record tag rendering := by
    rintro tag rendering rfl
    exact (describe v).capture_ne_record rendering hcapture
  rw [Node.ofRecord_eq hcapture]
  obtain ⟨result, hrecord, hnode⟩ :=
    hrenders.toJson_record_eq hstock (Recordable.recordTag share v) hplain hbudget
  refine ⟨⟨result, hrecord, hnode⟩, fun current o t path tries ho => ?_, ?_⟩
  · subst ho
    rw [saveDescribed_of_capture hcapture]
    cases result with
    | ok w =>
      exact Or.inl ⟨w, hnode, save_of_value hrecord current t path tries,
        save_of_value hnode current t path tries⟩
    | error cause =>
      exact Or.inr ⟨cause, _, _, hnode, save_of_fault hrecord current t path tries,
        save_of_fault hnode current t path tries⟩
  · have hsame : e.accepts budget (.record (Recordable.recordTag share v) (some n)) =
        e.accepts budget n := by
      rw [Encoder.accepts, Encoder.accepts, hrecord, hnode]
    have hroot : Diagnosis.recordPath "$" (Recordable.recordTag share v) =
        "$(" ++ (Recordable.recordTag share v).label ++ ")" := rfl
    refine ⟨Diagnosis.findings (e.accepts budget) n, ?_, ?_⟩
    · exact Diagnosis.report_eq_findings (e.accepts budget) n
    · rw [← hroot]
      exact Diagnosis.report_record hplain hsame

/-- A reading that is not a number. -/
def noReading : Sample.SensorReading := ⟨0 / 0⟩

/-- What it says of itself. -/
def noReadingNode : Node := .object [(.string "value", .float (0 / 0))]

/-- Neither way saves it, and the reports differ by the label. -/
theorem saved_as_record_noReading :
    (describe noReading).capture = .ok noReadingNode ∧ noReadingNode.height < 3 ∧
      (∃ result, Encoder.extended.toJson 3 (.ofRecord 0 noReading) = some result ∧
        Encoder.extended.toJson 3 noReadingNode = some result) ∧
      Encoder.extended.diagnose 3 noReadingNode = [("$.value", .float (0 / 0))] ∧
      Encoder.extended.diagnose 3 (.ofRecord 0 noReading) =
        [("$(Reading).value", .float (0 / 0))] := by
  have hcapture : (describe noReading).capture = .ok noReadingNode := rfl
  have hheight : noReadingNode.height < 3 := by decide
  obtain ⟨hresult, -, -⟩ :=
    saved_as_record .extended (Or.inr rfl) 0 noReading noReadingNode hcapture 3 hheight
  exact ⟨hcapture, hheight, hresult, rfl, rfl⟩

end

end DocStore
