import DocStore.Proofs.Loading.Outcomes
import DocStore.Proofs.Saving.AllOrNothing
/-!
# One event on one sink

What comes of a call is logged once: a failure as an error, a save and a default as a
detail, and a file that was decoded not at all. All of it goes to the sink of whoever made
the call. That is the current sink for the functions themselves. A component has its sink
from when it was made, whatever is current while it works.
-/

namespace DocStore

variable {α σ : Type}

/-- **How a call is made**: by the functions themselves, or through a component that was
made while some sink was current, by its name or by default, or with a sink given to it. -/
inductive Caller (σ : Type) where
  | free
  | made (earlier : σ)
  | byDefault (earlier : σ)
  | given (sink : σ)

namespace Caller

/-- **Where the events of a call belong.** -/
def sink (current : σ) : Caller σ → σ
  | .free => current
  | .made earlier => earlier
  | .byDefault earlier => earlier
  | .given sink => sink

/-- The saver of a caller that has one. -/
def saver? : Caller σ → Option (Saver σ)
  | .free => none
  | .made earlier => some (Saver.new earlier)
  | .byDefault earlier => some (Saver.default earlier)
  | .given sink => some ⟨sink⟩

/-- The loader of a caller that has one. -/
def loader? : Caller σ → Option (Loader σ)
  | .free => none
  | .made earlier => some (Loader.new earlier)
  | .byDefault earlier => some (Loader.default earlier)
  | .given sink => some ⟨sink⟩

variable (c : Caller σ) (current : σ)

/-- Saves a node. -/
def save (o : SaveOptions) (budget : Nat) (t : FileTree) (path : RawText) (n : Node)
    (tries : List Nat := t.suffixesInOrder) : Option (Saved σ) :=
  match c.saver? with
  | some saver => saver.save current o budget t path n tries
  | none => DocStore.save current o budget t path n tries

/-- Saves a described value. -/
def saveDescribed (o : SaveOptions) (budget : Nat) (t : FileTree) (path : RawText) (p : Program)
    (tries : List Nat := t.suffixesInOrder) : Option (Saved σ) :=
  match c.saver? with
  | some saver => saver.saveDescribed current o budget t path p tries
  | none => DocStore.saveDescribed current o budget t path p tries

/-- Loads a value. -/
def load [Decodable α] (t : FileTree) (path : RawText) (default : α) : Loaded σ α :=
  match c.loader? with
  | some loader => loader.load current t path default
  | none => DocStore.load current t path default

/-- Loads a value of a type that has a default of its own. -/
def loadOrDefault [Decodable α] [Inhabited α] (t : FileTree) (path : RawText) : Loaded σ α :=
  match c.loader? with
  | some loader => loader.loadOrDefault current t path
  | none => DocStore.loadOrDefault current t path

/-- Loads any JSON value. -/
def loadDocument (t : FileTree) (path : RawText) (default : Option Json) : Loaded σ Json :=
  match c.loader? with
  | some loader => loader.loadDocument current t path default
  | none => DocStore.loadDocument current t path default

variable {c current}

/-- **A component works as the functions do** where its sink is the current one. -/
theorem save_eq {o : SaveOptions} {budget : Nat} {t : FileTree} {path : RawText} {n : Node}
    {tries : List Nat} : c.save current o budget t path n tries =
      DocStore.save (c.sink current) o budget t path n tries := by
  cases c <;> rfl

theorem saveDescribed_eq {o : SaveOptions} {budget : Nat} {t : FileTree} {path : RawText}
    {p : Program} {tries : List Nat} : c.saveDescribed current o budget t path p tries =
      DocStore.saveDescribed (c.sink current) o budget t path p tries := by
  cases c <;> rfl

theorem load_eq [Decodable α] {t : FileTree} {path : RawText} {default : α} :
    c.load current t path default = DocStore.load (c.sink current) t path default := by
  cases c <;> rfl

theorem loadOrDefault_eq [Decodable α] [Inhabited α] {t : FileTree} {path : RawText} :
    (c.loadOrDefault current t path : Loaded σ α) =
      DocStore.load (c.sink current) t path default := by
  cases c <;> rfl

theorem loadDocument_eq {t : FileTree} {path : RawText} {default : Option Json} :
    c.loadDocument current t path default =
      DocStore.load (c.sink current) t path (default.getD (.object [])) := by
  cases c <;> rfl

end Caller

/-! ## What is logged -/

/-- **A save is reported**: by one event on the sink, which is an error exactly if the save
failed. A save that succeeded tells how long the file is that now lies where the path named
an entry; and that is where the path leads, unless it leads through that entry. -/
structure Saved.Reported (sink : σ) (o : SaveOptions) (t : FileTree) (path : RawText)
    (saved : Saved σ) : Prop where
  once : ∃ event, saved.log = [⟨sink, event⟩]
  error_iff : (∃ logged ∈ saved.log, logged.event.level = .error) ↔
    ∃ failure, saved.outcome = .error failure
  length : saved.outcome = .ok () → ∃ dir name mode content,
    (o.prepared t path).Names path dir name ∧
    saved.tree.get? (dir ++ [name]) = some (.file mode content) ∧
    (∀ logged ∈ saved.log, logged.event.fields.lookup "bytes" = some content.length.repr) ∧
    (dir ++ [name] ∉ (o.prepared t path).linksThrough path →
      saved.tree.LeadsTo path (.entry (dir ++ [name]) (.file mode content)))

/-- **A load is reported**: by one event on the sink if it failed, an error, or if it gave
the default for what is missing, no error; and by none if it decoded a file. -/
structure Loaded.Reported (sink : σ) (t : FileTree) (path : RawText) (default : α)
    (loaded : Loaded σ α) : Prop where
  error_iff : (∃ logged ∈ loaded.log, logged.event.level = .error) ↔
    ∃ failure, loaded.outcome = .error failure
  failed : ∀ failure, loaded.outcome = .error failure → ∃ event, loaded.log = [⟨sink, event⟩]
  missing : t.LeadsTo path .missing → loaded.outcome = .ok default ∧
    ∃ event, loaded.log = [⟨sink, event⟩] ∧ event.level = .debug
  decoded : ∀ l mode content v, t.LeadsTo path (.entry l (.file mode content)) →
    loaded.outcome = .ok v → loaded.log = []

variable {current : σ} {t : FileTree} {path : RawText}

/-- A save that failed logs its failure. -/
theorem Saved.reported_failed (sink : σ) (o : SaveOptions) (t t' : FileTree) (path : RawText)
    (failure : SaveError) : (Saved.failed sink t' failure).Reported sink o t path := by
  refine ⟨⟨_, rfl⟩, iff_of_true ⟨_, List.mem_singleton.2 rfl, rfl⟩ ⟨failure, rfl⟩, fun h => ?_⟩
  cases h

/-- **A save that wrote a text logs how long it is**, and so is the file. -/
theorem saveText_reported (sink : σ) (o : SaveOptions) (t : FileTree) (path : RawText) (text : String)
    (tries : List Nat) :
    (saveText sink o t path text tries).Reported sink o t path := by
  cases hrun : (o.replacement path (Text.bytes text) tries).run t with
  | mk t' outcome =>
    cases outcome with
    | error e =>
      have hsaved : saveText sink o t path text tries = .failed sink t' (.unwritable path e) := by
        rw [saveText, hrun]
      rw [hsaved]
      exact Saved.reported_failed sink o t t' path _
    | ok u =>
      have hsaved : saveText sink o t path text tries =
          ⟨t', .ok (), [⟨sink, .saved path text.utf8ByteSize⟩]⟩ := by rw [saveText, hrun]
      rw [hsaved]
      obtain ⟨target, hreplaced⟩ := Replacement.replaced_of_run_eq_ok hrun
      obtain ⟨dir, name, hnames, rfl, -⟩ := hreplaced.named
      refine ⟨⟨_, rfl⟩, iff_of_false ?_ ?_, fun _ =>
        ⟨dir, name, _, _, hnames, hreplaced.file, ?_, fun hthrough => ?_⟩⟩
      · rintro ⟨logged, hlogged, herror⟩
        obtain rfl := List.mem_singleton.1 hlogged
        cases herror
      · rintro ⟨failure, h⟩
        cases h
      · intro logged hlogged
        obtain rfl := List.mem_singleton.1 hlogged
        show _ = some (Text.bytes text).length.repr
        rw [Text.length_bytes]
        rfl
      · rw [FileTree.leadsTo_iff]
        exact hreplaced.resolve_eq.trans (if_neg hthrough)

/-- **Every save that encoding lets come to an end is reported.** -/
theorem save_reported (sink : σ) (o : SaveOptions) (budget : Nat) (t : FileTree) (path : RawText)
    {n : Node} (tries : List Nat) (h : (o.encoder.toJson budget n).isSome) :
    ∃ saved, save sink o budget t path n tries = some saved ∧ saved.Reported sink o t path := by
  obtain ⟨encoded, hencoded⟩ := Option.isSome_iff_exists.1 h
  unfold save Encoder.toText
  rw [hencoded]
  cases encoded with
  | error cause => exact ⟨_, rfl, Saved.reported_failed sink o t t path _⟩
  | ok v => exact ⟨_, rfl, saveText_reported sink o t path (Json.pretty v) tries⟩

theorem saveDescribed_reported (sink : σ) (o : SaveOptions) (budget : Nat) (t : FileTree)
    (path : RawText) {p : Program} (tries : List Nat)
    (h : ∀ n, p.capture = .ok n → (o.encoder.toJson budget n).isSome) :
    ∃ saved, saveDescribed sink o budget t path p tries = some saved ∧
      saved.Reported sink o t path := by
  unfold saveDescribed
  cases hcapture : p.capture with
  | error cause => exact ⟨_, rfl, Saved.reported_failed sink o t t path _⟩
  | ok n => exact save_reported sink o budget t path tries (h n hcapture)

/-- A load that failed logs its failure. -/
theorem Loaded.reported_failed (sink : σ) (default : α) {failure : LoadError} {event : Event}
    (herror : event.level = .error) (hthere : ¬ t.LeadsTo path .missing) :
    (⟨.error failure, [⟨sink, event⟩]⟩ : Loaded σ α).Reported sink t path default := by
  refine ⟨iff_of_true ⟨_, List.mem_singleton.2 rfl, herror⟩ ⟨failure, rfl⟩, fun _ _ => ⟨event, rfl⟩,
    fun hmissing => absurd hmissing hthere, fun l mode content v _ h => ?_⟩
  cases h

/-- **Every load is reported.** -/
theorem load_reported [Decodable α] (sink : σ) (t : FileTree) (path : RawText) (default : α) :
    (load sink t path default).Reported sink t path default := by
  obtain ⟨ending, hending⟩ := t.exists_leadsTo path
  rcases ending.missing_or_file_or_fault with rfl | ⟨l, mode, content, rfl⟩ | ⟨fault, hfault⟩
  · rw [load_of_missing sink default hending]
    refine ⟨iff_of_false ?_ ?_, ?_, fun _ => ⟨rfl, _, rfl, rfl⟩, fun l mode content v hfile => ?_⟩
    · rintro ⟨logged, hlogged, herror⟩
      obtain rfl := List.mem_singleton.1 hlogged
      cases herror
    · rintro ⟨failure, h⟩
      cases h
    · intro failure h
      cases h
    · cases hending.unique hfile
  · have hthere : ¬ t.LeadsTo path .missing := by
      intro hmissing
      cases hending.unique hmissing
    rw [load_of_file sink default hending]
    cases decode α content with
    | error e => exact Loaded.reported_failed sink default rfl hthere
    | ok v =>
      refine ⟨iff_of_false ?_ ?_, ?_, fun hmissing => absurd hmissing hthere,
        fun _ _ _ _ _ _ => rfl⟩
      · rintro ⟨logged, hlogged, -⟩
        cases hlogged
      · rintro ⟨failure, h⟩
        cases h
      · intro failure h
        cases h
  · have hthere : ¬ t.LeadsTo path .missing := by
      intro hmissing
      obtain rfl := hending.unique hmissing
      cases hfault
    rw [load_of_fault sink default hending hfault]
    exact Loaded.reported_failed sink default rfl hthere

/-- **Every call is reported once, on the sink of its caller.** Whatever sink is current
while it runs, and whatever comes of it. -/
theorem reported_once (c : Caller σ) (current : σ) (t : FileTree) (path : RawText) :
    (∀ (o : SaveOptions) (budget : Nat) (n : Node) (tries : List Nat),
      (o.encoder.toJson budget n).isSome →
      ∃ saved, c.save current o budget t path n tries = some saved ∧
        saved.Reported (c.sink current) o t path) ∧
    (∀ (o : SaveOptions) (budget : Nat) (p : Program) (tries : List Nat),
      (∀ n, p.capture = .ok n → (o.encoder.toJson budget n).isSome) →
      ∃ saved, c.saveDescribed current o budget t path p tries = some saved ∧
        saved.Reported (c.sink current) o t path) ∧
    (∀ (α : Type) [Decodable α] (default : α),
      (c.load current t path default).Reported (c.sink current) t path default) ∧
    (∀ (α : Type) [Decodable α] [Inhabited α],
      (c.loadOrDefault current t path : Loaded σ α).Reported (c.sink current) t path default) ∧
    ∀ default : Option Json, (c.loadDocument current t path default).Reported
      (c.sink current) t path (default.getD (.object [])) := by
  refine ⟨fun o budget n tries h => ?_, fun o budget p tries h => ?_, fun α _ default => ?_,
    fun α _ _ => ?_, fun default => ?_⟩
  · rw [Caller.save_eq]
    exact save_reported (c.sink current) o budget t path tries h
  · rw [Caller.saveDescribed_eq]
    exact saveDescribed_reported (c.sink current) o budget t path tries h
  · rw [Caller.load_eq]
    exact load_reported (c.sink current) t path default
  · rw [Caller.loadOrDefault_eq]
    exact load_reported (c.sink current) t path default
  · rw [Caller.loadDocument_eq]
    exact load_reported (c.sink current) t path _

/-- A saver that was made under one sink, at work under another, and a loader with a sink
of its own, both at a link to nothing. -/
theorem reported_once_brokenLinks :
    (∃ saved, (Caller.made 1).save 2 {} 1 brokenLinks "gone" .null = some saved ∧
      saved.Reported 1 {} brokenLinks "gone") ∧
    ∃ event, ((Caller.given 1).load 2 brokenLinks "gone" (Json.bool true)).log = [⟨1, event⟩] ∧
      event.level = .debug := by
  obtain ⟨hsave, -⟩ := reported_once (Caller.made 1) 2 brokenLinks "gone"
  obtain ⟨-, -, hload, -⟩ := reported_once (Caller.given 1) 2 brokenLinks "gone"
  exact ⟨hsave {} 1 .null _ rfl, ((hload Json (.bool true)).missing brokenLinks.gone_missing).2⟩

/-- **A save may succeed and log a length, and no file is at the path.** The file took the
place of the link that the path leads through. -/
theorem length_logged_without_file :
    ∃ saved : Saved Unit, save () {} 1 linkedShelf "way/../way" .null = some saved ∧
      saved.outcome = .ok () ∧ saved.log = [⟨(), .saved "way/../way" 4⟩] ∧
      ∀ l mode content, ¬ saved.tree.LeadsTo "way/../way" (.entry l (.file mode content)) := by
  have hjson : Encoder.strict.toJson 1 .null = some (.ok .null) := rfl
  obtain ⟨t', hsave, hread⟩ := linkedShelf.exists_save (o := {}) () rfl hjson
  refine ⟨_, hsave, rfl, rfl, fun l mode content hfile => ?_⟩
  rw [FileTree.read_of_file hfile] at hread
  cases hread

end DocStore
