import DocStore.Loading.Load
import DocStore.Proofs.Files.Endings
/-!
# What comes of a load

A load goes by what its path leads to. The default is for a path that leads to nothing, and
for no other (`load_of_ending`): a file that is there is decoded or complained about, and
whatever else stops the walk is a failure to read.
-/

namespace DocStore

namespace FileTree

/-- **Why a path that leads there cannot be read**, if it can neither be read nor counts as
missing. -/
def Ending.fault? : Ending → Option IoError
  | .entry _ (.file ..) => none
  | .entry .. => some .isDirectory
  | .missing => none
  | .notDirectory => some .notDirectory
  | .tooManyLinks => some .tooManyLinks
  | .tooLong => some .nameTooLong
  | .invalid => some .nulInName

variable {t : FileTree} {path : RawText} {ending : Ending} {fault : IoError}

theorem read_of_file {l : Location} {mode : Nat} {content : List UInt8}
    (h : t.LeadsTo path (.entry l (.file mode content))) : t.read path = .ok content := by
  simp [read, h.resolve_eq, Ending.result, bind, Except.bind, pure, Except.pure]

theorem read_of_missing (h : t.LeadsTo path .missing) : t.read path = .error .notFound := by
  simp [read, h.resolve_eq, Ending.result, bind, Except.bind]

theorem read_of_fault (h : t.LeadsTo path ending) (hfault : ending.fault? = some fault) :
    t.read path = .error fault := by
  cases ending with
  | entry l e =>
    cases e with
    | file mode content => cases hfault
    | directory | link _ =>
      cases hfault
      simp [read, h.resolve_eq, Ending.result, bind, Except.bind]
  | missing => cases hfault
  | _ =>
    cases hfault
    simp [read, h.resolve_eq, Ending.result, bind, Except.bind]

/-- A path is missing, leads to a file or cannot be read. -/
theorem Ending.missing_or_file_or_fault (ending : Ending) :
    ending = .missing ∨ (∃ l mode content, ending = .entry l (.file mode content)) ∨
      ∃ fault, ending.fault? = some fault := by
  cases ending with
  | missing => exact Or.inl rfl
  | entry l e =>
    cases e with
    | file mode content => exact Or.inr (Or.inl ⟨l, mode, content, rfl⟩)
    | directory | link _ => exact Or.inr (Or.inr ⟨_, rfl⟩)
  | _ => exact Or.inr (Or.inr ⟨_, rfl⟩)

/-- None of these faults counts as missing. -/
theorem Ending.kind_of_fault (hfault : ending.fault? = some fault) : fault.kind ≠ .notFound := by
  cases ending with
  | entry l e =>
    cases e with
    | file mode content => cases hfault
    | directory | link _ =>
      cases hfault
      decide
  | missing => cases hfault
  | _ =>
    cases hfault
    decide

end FileTree

variable {α σ : Type} [Decodable α] {t : FileTree} {path : RawText}

theorem load_of_missing (current : σ) (default : α) (h : t.LeadsTo path .missing) :
    load current t path default = ⟨.ok default, [⟨current, .defaulted path⟩]⟩ := by
  have hkind : IoError.notFound.kind = .notFound := by decide
  rw [load, FileTree.read_of_missing h]
  exact if_pos hkind

theorem load_of_file (current : σ) (default : α) {l : Location} {mode : Nat}
    {content : List UInt8} (h : t.LeadsTo path (.entry l (.file mode content))) :
    load current t path default =
      match decode α content with
      | .ok v => ⟨.ok v, []⟩
      | .error e => ⟨.error (.unparsable path e), [⟨current, .notParsed path e⟩]⟩ := by
  unfold load
  rewrite [FileTree.read_of_file h]
  rfl

theorem load_of_fault (current : σ) (default : α) {ending : FileTree.Ending} {fault : IoError}
    (h : t.LeadsTo path ending) (hfault : ending.fault? = some fault) :
    load current t path default =
      ⟨.error (.unreadable path fault), [⟨current, .notRead path fault⟩]⟩ := by
  rw [load, FileTree.read_of_fault h hfault]
  exact if_neg (FileTree.Ending.kind_of_fault hfault)

/-- **The default stands in for what is missing, and for nothing else.** A path leads to
one ending. If something is missing, a name on the way or the target of a link, a load gives
the default. If the path leads to a file, a load gives what its content decodes to, or says
what is wrong with it, whatever the default. Everything else, a directory, a name behind a
file, too many links, a name that is too long or no name at all, is a failure to read that
carries the path. -/
theorem load_of_ending (current : σ) (t : FileTree) (path : RawText) (default : α) :
    (∃ ending, t.LeadsTo path ending ∧ ∀ other, t.LeadsTo path other → other = ending) ∧
    (load current t path default = ⟨.ok default, [⟨current, .defaulted path⟩]⟩ ↔
      t.LeadsTo path .missing) ∧
    (∀ l mode content, t.LeadsTo path (.entry l (.file mode content)) →
      load current t path default =
        match decode α content with
        | .ok v => ⟨.ok v, []⟩
        | .error e => ⟨.error (.unparsable path e), [⟨current, .notParsed path e⟩]⟩) ∧
    ∀ ending, t.LeadsTo path ending → ending ≠ .missing →
      (∀ l mode content, ending ≠ .entry l (.file mode content)) →
        ∃ fault, ending.fault? = some fault ∧ load current t path default =
          ⟨.error (.unreadable path fault), [⟨current, .notRead path fault⟩]⟩ := by
  obtain ⟨ending, hending⟩ := t.exists_leadsTo path
  refine ⟨⟨ending, hending, fun other hother => hother.unique hending⟩, ⟨fun h => ?_, ?_⟩, ?_, ?_⟩
  · -- any other ending gives something else than the default and its event
    rcases ending.missing_or_file_or_fault with rfl | ⟨l, mode, content, rfl⟩ | ⟨fault, hfault⟩
    · exact hending
    · rw [load_of_file current default hending] at h
      split at h <;> simp at h
    · rw [load_of_fault current default hending hfault] at h
      simp at h
  · exact load_of_missing current default
  · intro l mode content hfile
    exact load_of_file current default hfile
  · intro ending' hending' hmissing hfile
    rcases ending'.missing_or_file_or_fault with h | ⟨l, mode, content, h⟩ | ⟨fault, hfault⟩
    · exact absurd h hmissing
    · exact absurd h (hfile l mode content)
    · exact ⟨fault, hfault, load_of_fault current default hending' hfault⟩

/-- A link to nothing, and a link to itself. -/
def brokenLinks : FileTree :=
  (FileTree.put {} [.ofText "gone"] (.link "nowhere")).put [.ofText "round"] (.link "round")

namespace brokenLinks

open FileTree

theorem get?_gone : brokenLinks.get? [.ofText "gone"] = some (.link "nowhere") := by
  rw [brokenLinks, get?_put_of_ne (by decide), get?_put_self (by simp)]

theorem get?_nowhere : brokenLinks.get? [.ofText "nowhere"] = none := by
  rw [brokenLinks, get?_put_of_ne (by decide), get?_put_of_ne (by decide)]
  exact get?_empty (by simp)

theorem get?_round : brokenLinks.get? [.ofText "round"] = some (.link "round") :=
  get?_put_self (by simp)

/-- The walk follows the link, and finds nothing under the name in it. -/
theorem gone_missing : brokenLinks.LeadsTo "gone" .missing := by
  have hstart : brokenLinks.start "gone" = [] := rfl
  have hsteps : Path.steps "gone" = [.ofText "gone"] ∧
      Path.steps "nowhere" = [.ofText "nowhere"] := by decide
  refine .walk (w := ⟨39, [], [.ofText "nowhere"]⟩) (by decide) (by decide) (by decide) ?_ ?_
  · rw [hstart, hsteps.1]
    exact .single (.along get?_nil ⟨by decide, by decide, by decide⟩ get?_gone)
  · exact .missing get?_nil ⟨by decide, by decide, by decide⟩ get?_nowhere

/-- The walk follows the link until it may follow no more. -/
theorem round_tooManyLinks : brokenLinks.LeadsTo "round" .tooManyLinks := by
  have hname : IsName "round" := ⟨by decide, by decide, by decide⟩
  have hround : ∀ k, Relation.ReflTransGen brokenLinks.Goes
      ⟨k, [], [.ofText "round"]⟩ ⟨0, [], [.ofText "round"]⟩ := by
    intro k
    induction k with
    | zero => exact .refl
    | succ k ih => exact .head (.along get?_nil hname get?_round) ih
  exact .walk (by decide) (by decide) (by decide) (hround linkLimit)
    (.tooManyLinks get?_nil hname get?_round)

end brokenLinks

/-- A link to nothing gives the default, and a link to itself does not. -/
theorem load_of_ending_brokenLinks :
    load () brokenLinks "gone" (Json.bool true) =
        ⟨.ok (.bool true), [⟨(), .defaulted "gone"⟩]⟩ ∧
      load () brokenLinks "round" (Json.bool true) =
        ⟨.error (.unreadable "round" .tooManyLinks), [⟨(), .notRead "round" .tooManyLinks⟩]⟩ := by
  obtain ⟨-, hgone, -⟩ := load_of_ending () brokenLinks "gone" (Json.bool true)
  obtain ⟨-, -, -, hround⟩ := load_of_ending () brokenLinks "round" (Json.bool true)
  obtain ⟨fault, hfault, hload⟩ :=
    hround _ brokenLinks.round_tooManyLinks (by simp) (by simp)
  cases hfault
  exact ⟨hgone.2 brokenLinks.gone_missing, hload⟩

end DocStore
