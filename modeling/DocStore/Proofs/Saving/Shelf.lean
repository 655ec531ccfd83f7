import DocStore.Proofs.Files.Parents
import DocStore.Proofs.Saving.Loadable
/-!
# A directory of documents

Saves and loads of plain names in one directory make a map from names to documents.
A save that succeeds replaces the document under its name, and all other saves and
all loads leave the tree as it is (`Holds.step`). So after any run the tree is the
first one with the documents that were saved last, and every load in the run gives
what was saved last before it (`serve_as_map`).
-/

namespace DocStore

open Json

/-- The name that a path ends in. -/
def Path.name (path : RawText) : RawText := (Path.parts path).fileName?.getD ⟨[]⟩

/-- **A plain name in a directory**: the path names an entry there that is absent or
a file, under a name that a file can have. -/
structure FileTree.PlainIn (t : FileTree) (dir : Location) (path : RawText) : Prop where
  names : t.Names path dir (Path.name path)
  slash : Path.endsInSlash path = false
  short : (Path.name path).size ≤ nameLimit
  absent_or_file : t.get? (dir ++ [Path.name path]) = none ∨
    ∃ mode content, t.get? (dir ++ [Path.name path]) = some (.file mode content)

/-- **A name that a file can have, in a directory that is there**, is plain if it is
absent or a file. -/
theorem FileTree.PlainIn.join {t : FileTree} {dir : Location} {d name : RawText}
    (hd : t.resolve d = .ok (dir, .directory))
    (haccepted : FileTree.checkPath (Path.join d name) = .ok ()) (hname : FileTree.IsName name)
    (hne : name.bytes ≠ []) (hslash : Path.slash ∉ name.bytes)
    (hthere : t.get? (dir ++ [name]) = none ∨
      ∃ mode content, t.get? (dir ++ [name]) = some (.file mode content)) :
    t.PlainIn dir (Path.join d name) := by
  have hnames := FileTree.names_join hd hne hslash hname.ne_dot hname.ne_dots haccepted
  have hpath : Path.name (Path.join d name) = name := by
    rw [Path.name, Path.fileName?_parts hnames.last hname.ne_dot hname.ne_dots, Option.getD_some]
  exact ⟨by rwa [hpath], Path.endsInSlash_join hne hslash, by rw [hpath]; exact hname.short,
    by rwa [hpath]⟩

/-! ## Requests -/

/-- **What may be asked** of a path. -/
inductive Call where
  | save (o : SaveOptions) (n : Node)
  | saveDescribed (o : SaveOptions) (p : Program)
  | load (default : Option Json)

/-- A call with the path it is for. -/
structure Request where
  path : RawText
  call : Call
  /-- The suffixes that chance gives the temporary file of a save. -/
  tries : List Nat := [0]

/-- What a call gives back. -/
inductive Response where
  | saved (outcome : Except SaveError Unit)
  | loaded (outcome : Except LoadError Json)

/-- Whether a response is that of a save that succeeded. -/
def Response.isSaved : Response → Bool
  | .saved (.ok ()) => true
  | _ => false

/-- A document as it was saved: the mode of the file, and the value. -/
structure Document where
  mode : Nat
  value : Json

variable {σ : Type}

namespace Request

/-- The name that a request is for. -/
def name (r : Request) : RawText := Path.name r.path

/-- **Carries out a request**; `none` if the budget of an encoder ran out. -/
def answer (current : σ) (budget : Nat) (t : FileTree) (r : Request) :
    Option (FileTree × Response) :=
  match r.call with
  | .save o n => (save current o budget t r.path n r.tries).map fun s => (s.tree, .saved s.outcome)
  | .saveDescribed o p =>
    (saveDescribed current o budget t r.path p r.tries).map fun s => (s.tree, .saved s.outcome)
  | .load default => some (t, .loaded (loadDocument current t r.path default).outcome)

/-- Encoding returns within the budget. -/
def ReturnsWithin (budget : Nat) (r : Request) : Prop :=
  match r.call with
  | .save o n => (o.encoder.toJson budget n).isSome
  | .saveDescribed o p => ∀ n, p.capture = .ok n → (o.encoder.toJson budget n).isSome
  | .load _ => True

/-- The document of a node. -/
def encoded? (o : SaveOptions) (budget : Nat) (n : Node) : Option Document :=
  match o.encoder.toJson budget n with
  | some (.ok w) => some ⟨o.mode, w⟩
  | _ => none

/-- **The document that a save puts in place**, if its value encodes. -/
def document? (budget : Nat) (r : Request) : Option Document :=
  match r.call with
  | .save o n => encoded? o budget n
  | .saveDescribed o p => p.capture.toOption.bind (encoded? o budget)
  | .load _ => none

end Request

/-- **Carries out requests** one after the other, and keeps what was asked and
answered. -/
def serve (current : σ) (budget : Nat) (t : FileTree) :
    List Request → Option (FileTree × List (Request × Response))
  | [] => some (t, [])
  | r :: rest => do
    let (t, response) ← r.answer current budget t
    let (t, log) ← serve current budget t rest
    pure (t, (r, response) :: log)

/-! ## The map -/

/-- **The document of the latest successful save** to each name. -/
def latest (budget : Nat) (log : List (Request × Response)) (name : RawText) : Option Document :=
  (log.filter fun x => x.1.name == name && x.2.isSaved).getLast?.bind fun x => x.1.document? budget

/-- **A tree holds the documents of a map**: under each name of the map a file with the
text and the mode of its document, and all else as in the first tree. -/
structure Holds (t : FileTree) (dir : Location) (documents : RawText → Option Document)
    (t' : FileTree) : Prop where
  home : t'.home = t.home
  saved : ∀ name document, documents name = some document → t'.get? (dir ++ [name]) =
    some (.file document.mode (Text.bytes (pretty document.value)))
  others : ∀ l, (∀ name, documents name ≠ none → l ≠ dir ++ [name]) → t'.get? l = t.get? l

/-- **What a request is answered**, after the requests of the log. A save may fail, but
succeeds only with a document. A load gives what was saved last, if the reader can
read it; else the file that was there at first; and the default if there was none. -/
def Answered (budget : Nat) (t : FileTree) (dir : Location) (log : List (Request × Response))
    (r : Request) (response : Response) : Prop :=
  match r.call with
  | .load default => ∃ outcome, response = .loaded outcome ∧
    match latest budget log r.name with
    | some document =>
      FloatFree document.value → document.value.depth ≤ 127 → outcome = .ok document.value
    | none =>
      match t.get? (dir ++ [r.name]) with
      | some (.file _ content) => outcome = (parse content).mapError (.unparsable r.path)
      | _ => outcome = .ok (default.getD (.object []))
  | _ => ∃ outcome, response = .saved outcome ∧
    (outcome = .ok () → ∃ document, r.document? budget = some document)

variable {t t' t'' : FileTree} {dir : Location} {path : RawText} {budget : Nat}
  {documents : RawText → Option Document} {log : List (Request × Response)} {r : Request}

theorem latest_concat (budget : Nat) (log : List (Request × Response)) (r : Request)
    (response : Response) :
    latest budget (log ++ [(r, response)]) =
      if response.isSaved then Function.update (latest budget log) r.name (r.document? budget)
      else latest budget log := by
  funext name
  rw [latest, List.filter_append, List.filter_singleton]
  by_cases hsaved : response.isSaved = true
  · by_cases hname : name = r.name
    · subst hname
      simp [hsaved]
    · have hother : (r.name == name) = false := by simpa using Ne.symm hname
      simp [hsaved, Function.update_of_ne hname, latest, hother]
  · simp [hsaved, latest]

/-! ## What holds over a run -/

/-- **What is known of the documents of a map**: their names are plain ones in the first
tree, and in their values the names of each object differ. -/
structure Kept (t : FileTree) (dir : Location) (documents : RawText → Option Document) : Prop where
  plain : ∀ name, documents name ≠ none → t.get? (dir ++ [name]) = none ∨
    ∃ mode content, t.get? (dir ++ [name]) = some (.file mode content)
  distinct : ∀ name document, documents name = some document → document.value.Distinct

namespace Holds

/-- What was a directory or a link at first is one still. -/
theorem get?_eq (h : Holds t dir documents t') (hkept : Kept t dir documents) {l : Location}
    {e : Entry} (he : t.get? l = some e) (hfile : ∀ mode content, e ≠ .file mode content) :
    t'.get? l = some e := by
  rw [h.others l, he]
  rintro name hname rfl
  rcases hkept.plain name hname with hnone | ⟨mode, content, hthere⟩
  · rw [hnone] at he
    cases he
  · rw [hthere] at he
    exact hfile mode content (Option.some.inj he).symm

/-- **A path names the same entry as at first.** -/
theorem names (h : Holds t dir documents t') (hkept : Kept t dir documents) {name : RawText}
    {d : Location} (hnames : t.Names path d name) : t'.Names path d name := by
  have hkeeps : t.Keeps t' := by
    refine ⟨h.home, fun l hl => ?_, fun l target hl => Or.inl ?_⟩
    · exact h.get?_eq hkept hl (by simp)
    · exact h.get?_eq hkept hl (by simp)
  refine hnames.mono hkeeps fun l hl => ?_
  obtain ⟨target, hlink⟩ := FileTree.exists_link_of_mem_linksFollowed hl
  rw [hlink, h.get?_eq hkept hlink (by simp)]

/-- What lies under a name without a document is what lay there at first. -/
theorem get?_of_none (h : Holds t dir documents t') {name : RawText}
    (hnone : documents name = none) : t'.get? (dir ++ [name]) = t.get? (dir ++ [name]) := by
  refine h.others _ fun name' hname' heq => ?_
  obtain rfl : name = name' := by simpa using heq
  exact hname' hnone

/-- **A load gives the document of its name**, if the reader can read it. -/
theorem load_of_some (h : Holds t dir documents t') (hkept : Kept t dir documents)
    (hplain : t.PlainIn dir path) {document : Document}
    (hdocument : documents (Path.name path) = some document) (hfree : FloatFree document.value)
    (hdepth : document.value.depth ≤ 127) (current : σ) (default : Option Json) :
    (loadDocument current t' path default).outcome = .ok document.value := by
  have hnames := h.names hkept hplain.names
  have hfile := h.saved _ document hdocument
  have hresolve := hnames.resolve_eq hplain.slash hplain.short hfile (fun _ => by simp)
  have hread : t'.read path = .ok (Text.bytes (pretty document.value)) := by
    simp [FileTree.read, hresolve, bind, Except.bind, pure, Except.pure]
  exact loadDocument_of_read current default
    (parse_pretty hfree (hkept.distinct _ document hdocument) hdepth) hread

/-- **A load of a name without a document gives what was there at first.** -/
theorem load_of_none (h : Holds t dir documents t') (hkept : Kept t dir documents)
    (hplain : t.PlainIn dir path) (hnone : documents (Path.name path) = none) (current : σ)
    (default : Option Json) :
    match t.get? (dir ++ [Path.name path]) with
    | some (.file _ content) => (loadDocument current t' path default).outcome =
        (parse content).mapError (.unparsable path)
    | _ => (loadDocument current t' path default).outcome = .ok (default.getD (.object [])) := by
  have hnames := h.names hkept hplain.names
  have hthere := h.get?_of_none hnone
  rcases hplain.absent_or_file with habsent | ⟨mode, content, hfile⟩
  · rw [habsent] at hthere ⊢
    obtain ⟨k, hk⟩ := hnames.locate_steps hplain.slash
    have hwalk : t'.locate k dir [Path.name path] = .ok (dir ++ [Path.name path], none) := by
      rw [FileTree.locate.eq_def]
      simp [hnames.get?_dir, hnames.ne_dot, hnames.ne_dots, Nat.not_lt.2 hplain.short, hthere]
    have hread : t'.read path = .error .notFound := by
      simp [FileTree.read, FileTree.resolve, hnames.accepted, hk, hwalk, bind, Except.bind]
    have hkind : IoError.notFound.kind = .notFound := by decide
    simp [loadDocument, load, hread, hkind]
  · rw [hfile] at hthere ⊢
    have hresolve := hnames.resolve_eq hplain.slash hplain.short hthere (fun _ => by simp)
    have hread : t'.read path = .ok content := by
      simp [FileTree.read, hresolve, bind, Except.bind, pure, Except.pure]
    have hdecode : decode Json content = parse content := rfl
    dsimp only
    rw [loadDocument, load, hread]
    dsimp only
    rw [hdecode]
    cases parse content <;> rfl

/-- **A save that succeeds puts its document under its name**, and one that fails
changes nothing. -/
theorem of_whole (h : Holds t dir documents t') (hkept : Kept t dir documents)
    (hplain : t.PlainIn dir path) {o : SaveOptions} {encoded : Except EncodeError Json}
    {saved : Saved σ} (hwhole : saved.Whole o t' path encoded) :
    (saved.outcome = .ok () → ∃ w, encoded = .ok w ∧
      Holds t dir (Function.update documents (Path.name path) (some ⟨o.mode, w⟩)) saved.tree) ∧
    (saved.outcome ≠ .ok () → Holds t dir documents saved.tree) := by
  have hnames := h.names hkept hplain.names
  -- the directory is there, so none is made
  have hprepared : o.prepared t' path = t' := by
    rw [SaveOptions.prepared, hnames.createDirectories_eq hplain.slash, ite_self]
  refine ⟨fun hok => ?_, fun hfailed => ?_⟩
  · obtain ⟨w, target, rfl, hreplaced, -⟩ := hwhole.written hok
    rw [hprepared] at hreplaced
    obtain ⟨dir', name', hnames', htarget, -⟩ := hreplaced.named
    obtain ⟨rfl, rfl⟩ := hnames.unique hnames'
    subst htarget
    refine ⟨w, rfl, hreplaced.home.trans h.home, fun name document hdocument => ?_, fun l hl => ?_⟩
    · by_cases hname : name = Path.name path
      · subst hname
        rw [Function.update_self, Option.some.injEq] at hdocument
        rw [hreplaced.file, ← hdocument]
      · rw [Function.update_of_ne hname] at hdocument
        rw [hreplaced.others _ (by simpa using hname), h.saved name document hdocument]
    · have hself : l ≠ dir' ++ [Path.name path] := hl _ (by simp)
      rw [hreplaced.others l hself]
      refine h.others l fun name hname => ?_
      by_cases heq : name = Path.name path
      · rwa [heq]
      · exact hl name (by rwa [Function.update_of_ne heq])
  · have hsame : saved.tree.home = t'.home ∧ ∀ l, saved.tree.get? l = t'.get? l := by
      cases houtcome : saved.outcome with
      | ok u => exact absurd houtcome hfailed
      | error failure =>
        cases failure with
        | unencodable p message cause =>
          rw [hwhole.untouched p message cause houtcome]
          exact ⟨rfl, fun _ => rfl⟩
        | unwritable p cause =>
          have hunwritten := hwhole.unwritable p cause houtcome
          rwa [hprepared] at hunwritten
    exact ⟨hsame.1.trans h.home,
      fun name document hdocument => (hsame.2 _).trans (h.saved name document hdocument),
      fun l hl => (hsame.2 l).trans (h.others l hl)⟩

end Holds

/-! ## One request -/

theorem Request.ReturnsWithin.mono {budget' : Nat} (hle : budget ≤ budget')
    (h : r.ReturnsWithin budget) : r.ReturnsWithin budget' := by
  obtain ⟨path, call, tries⟩ := r
  cases call with
  | save o n => exact Encoder.isSome_of_le hle h
  | saveDescribed o p => exact fun n hn => Encoder.isSome_of_le hle (h n hn)
  | load default => trivial

/-- **A request to save is answered by a save that is all or nothing.** What it encodes
to is its document. -/
theorem Request.exists_saved (current : σ) (t : FileTree) (hreturns : r.ReturnsWithin budget)
    (hsave : ∀ default, r.call ≠ .load default) :
    ∃ (o : SaveOptions) (encoded : Except EncodeError Json) (saved : Saved σ),
      r.answer current budget t = some (saved.tree, .saved saved.outcome) ∧
      saved.Whole o t r.path encoded ∧
      ∀ w, encoded = .ok w → r.document? budget = some ⟨o.mode, w⟩ ∧ w.Distinct := by
  obtain ⟨path, call, tries⟩ := r
  have hnode : ∀ (o : SaveOptions) (n : Node), (o.encoder.toJson budget n).isSome →
      ∃ (encoded : Except EncodeError Json) (saved : Saved σ),
        save current o budget t path n tries = some saved ∧ saved.Whole o t path encoded ∧
        ∀ w, encoded = .ok w → encoded? o budget n = some ⟨o.mode, w⟩ ∧ w.Distinct := by
    intro o n hsome
    obtain ⟨encoded, hencoded⟩ := Option.isSome_iff_exists.1 hsome
    obtain ⟨saved, hsaved, hwhole⟩ := save_eq_some current o budget t path tries hencoded
    refine ⟨encoded, saved, hsaved, hwhole, ?_⟩
    rintro w rfl
    exact ⟨by rw [encoded?, hencoded], Encoder.distinct_of_toJson hencoded⟩
  have hanswered : ∀ (saved : Saved σ) (attempt : Option (Saved σ)), attempt = some saved →
      attempt.map (fun s => (s.tree, Response.saved s.outcome)) =
        some (saved.tree, .saved saved.outcome) := by
    rintro saved attempt rfl
    rfl
  cases call with
  | load default => exact absurd rfl (hsave default)
  | save o n =>
    obtain ⟨encoded, saved, hsaved, hwhole, hdocument⟩ := hnode o n hreturns
    exact ⟨o, encoded, saved, hanswered saved _ hsaved, hwhole, hdocument⟩
  | saveDescribed o p =>
    cases hcapture : p.capture with
    | ok n =>
      obtain ⟨encoded, saved, hsaved, hwhole, hdocument⟩ := hnode o n (hreturns n hcapture)
      have hdescribed : saveDescribed current o budget t path p tries = some saved := by
        rw [saveDescribed, hcapture]
        exact hsaved
      have hencoded : p.capture.toOption.bind (encoded? o budget) = encoded? o budget n := by
        rw [hcapture]
        rfl
      refine ⟨o, encoded, saved, hanswered saved _ hdescribed, hwhole, fun w hw => ?_⟩
      obtain ⟨hsome, hdistinct⟩ := hdocument w hw
      exact ⟨hencoded.trans hsome, hdistinct⟩
    | error cause =>
      have hwhole := Saved.whole_failed current o t path
        (unencodableMessage path cause.message) cause
      have hdescribed : saveDescribed current o budget t path p tries = some (.failed current t
          (.unencodable path (unencodableMessage path cause.message) cause)) := by
        rw [saveDescribed, hcapture]
      refine ⟨o, .error cause, _, hanswered _ _ hdescribed, hwhole, fun w hw => ?_⟩
      cases hw

/-- **A request keeps the tree the map that its log says**, and is answered from the map. -/
theorem Holds.step (h : Holds t dir (latest budget log) t') (hkept : Kept t dir (latest budget log))
    (hplain : t.PlainIn dir r.path) (hreturns : r.ReturnsWithin budget) (current : σ) :
    ∃ t'' response, r.answer current budget t' = some (t'', response) ∧
      Answered budget t dir log r response ∧
      Holds t dir (latest budget (log ++ [(r, response)])) t'' ∧
      Kept t dir (latest budget (log ++ [(r, response)])) := by
  obtain ⟨path, call, tries⟩ := r
  by_cases hload : ∃ default, call = .load default
  · obtain ⟨default, rfl⟩ := hload
    refine ⟨t', .loaded (loadDocument current t' path default).outcome, rfl, ⟨_, rfl, ?_⟩, ?_, ?_⟩
    · cases hdocument : latest budget log (Request.name ⟨path, .load default, tries⟩) with
      | some document =>
        intro hfree hdepth
        exact h.load_of_some hkept hplain hdocument hfree hdepth current default
      | none => exact h.load_of_none hkept hplain hdocument current default
    · rwa [latest_concat, if_neg (by simp [Response.isSaved])]
    · rwa [latest_concat, if_neg (by simp [Response.isSaved])]
  · have hsave : ∀ default, call ≠ .load default := fun default heq => hload ⟨default, heq⟩
    obtain ⟨o, encoded, saved, hanswer, hwhole, hdocument⟩ :=
      Request.exists_saved current t' hreturns hsave
    obtain ⟨hok, hfailed⟩ := h.of_whole hkept hplain hwhole
    refine ⟨saved.tree, .saved saved.outcome, hanswer, ?_, ?_⟩
    · have hsuccess : saved.outcome = .ok () →
          ∃ document, Request.document? budget ⟨path, call, tries⟩ = some document := by
        intro houtcome
        obtain ⟨w, rfl, -⟩ := hok houtcome
        exact ⟨_, (hdocument w rfl).1⟩
      cases call with
      | load default => exact absurd rfl (hsave default)
      | save _ _ | saveDescribed _ _ => exact ⟨_, rfl, hsuccess⟩
    · by_cases houtcome : saved.outcome = .ok ()
      · obtain ⟨w, rfl, hholds⟩ := hok houtcome
        obtain ⟨hsome, hdistinct⟩ := hdocument w rfl
        have hsaved : Response.isSaved (.saved (.ok ())) = true := rfl
        rw [latest_concat, houtcome, if_pos hsaved, hsome]
        refine ⟨hholds, fun name hname => ?_, fun name document hdocument => ?_⟩
        · by_cases heq : name = Request.name ⟨path, call, tries⟩
          · rw [heq]
            exact hplain.absent_or_file
          · exact hkept.plain name (by rwa [Function.update_of_ne heq] at hname)
        · by_cases heq : name = Request.name ⟨path, call, tries⟩
          · subst heq
            rw [Function.update_self, Option.some.injEq] at hdocument
            rw [← hdocument]
            exact hdistinct
          · rw [Function.update_of_ne heq] at hdocument
            exact hkept.distinct name document hdocument
      · have hnot : Response.isSaved (.saved saved.outcome) = false := by
          cases hcase : saved.outcome with
          | ok u => exact absurd hcase houtcome
          | error failure => rfl
        rw [latest_concat, hnot, if_neg Bool.false_ne_true]
        exact ⟨hfailed houtcome, hkept⟩

/-! ## Whole runs -/

/-- A map without documents holds in the tree that there was at first. -/
theorem Holds.first (t : FileTree) (dir : Location) (budget : Nat) :
    Holds t dir (latest budget []) t ∧ Kept t dir (latest budget []) := by
  have hnone : ∀ name, latest budget [] name = none := fun _ => rfl
  refine ⟨⟨rfl, fun name document hdocument => ?_, fun _ _ => rfl⟩,
    fun name hname => absurd (hnone name) hname, fun name document hdocument => ?_⟩
  · rw [hnone] at hdocument
    cases hdocument
  · rw [hnone] at hdocument
    cases hdocument

/-- **A run keeps the tree the map that its log says**, whatever was asked before. -/
theorem Holds.exists_serve (current : σ) {requests : List Request}
    (hplain : ∀ r ∈ requests, t.PlainIn dir r.path)
    (hreturns : ∀ r ∈ requests, r.ReturnsWithin budget)
    (h : Holds t dir (latest budget log) t') (hkept : Kept t dir (latest budget log)) :
    ∃ t'' answered, serve current budget t' requests = some (t'', answered) ∧
      answered.map (·.1) = requests ∧ Holds t dir (latest budget (log ++ answered)) t'' ∧
      ∀ front r response back, answered = front ++ (r, response) :: back →
        Answered budget t dir (log ++ front) r response := by
  induction requests generalizing t' log with
  | nil =>
    refine ⟨t', [], rfl, rfl, by rwa [List.append_nil], fun front r response back hnil => ?_⟩
    simp at hnil
  | cons r rest ih =>
    obtain ⟨hplain, hplainRest⟩ := List.forall_mem_cons.1 hplain
    obtain ⟨hreturns, hreturnsRest⟩ := List.forall_mem_cons.1 hreturns
    obtain ⟨u, response, hanswer, hanswered, hholds, hkept'⟩ := h.step hkept hplain hreturns current
    obtain ⟨t'', answered, hserve, hrequests, hlast, hall⟩ :=
      ih hplainRest hreturnsRest hholds hkept'
    have hlog : log ++ (r, response) :: answered = log ++ [(r, response)] ++ answered := by
      rw [List.append_assoc, List.singleton_append]
    refine ⟨t'', (r, response) :: answered, ?_, by rw [List.map_cons, hrequests], ?_, ?_⟩
    · simp [serve, hanswer, hserve]
    · rwa [hlog]
    · intro front r' response' back hsplit
      cases front with
      | nil =>
        rw [List.nil_append, List.cons.injEq, Prod.mk.injEq] at hsplit
        obtain ⟨⟨rfl, rfl⟩, -⟩ := hsplit
        rwa [List.append_nil]
      | cons first front =>
        rw [List.cons_append, List.cons.injEq] at hsplit
        obtain ⟨rfl, hsplit⟩ := hsplit
        rw [List.append_cons]
        exact hall front r' response' back hsplit

/-- **A directory of documents behaves as a map.** However many nodes and described
values are saved and however many documents loaded, under plain names in one directory
and with any options and encoders that return: after the run each name that was saved to
is a file with the text and the mode of its last successful save, and all else is as at
first. And each load in the run gives the document of the latest successful save in front
of it, or what was there at first, or the default. -/
theorem serve_as_map (current : σ) (t : FileTree) (dir : Location) (requests : List Request)
    (hplain : ∀ r ∈ requests, t.PlainIn dir r.path)
    (hreturns : ∀ r ∈ requests, ∃ budget, r.ReturnsWithin budget) :
    ∃ least, ∀ budget, least ≤ budget → ∃ t' log,
      serve current budget t requests = some (t', log) ∧ log.map (·.1) = requests ∧
      Holds t dir (latest budget log) t' ∧
      ∀ front r response back, log = front ++ (r, response) :: back →
        Answered budget t dir front r response := by
  have hmono : ∀ (r : Request) (budget budget' : Nat), budget ≤ budget' →
      r.ReturnsWithin budget → r.ReturnsWithin budget' :=
    fun r budget budget' => Request.ReturnsWithin.mono
  obtain ⟨least, hleast⟩ := Encoder.exists_least hmono requests hreturns
  refine ⟨least, fun budget hbudget => ?_⟩
  obtain ⟨hfirst, hkept⟩ := Holds.first t dir budget
  exact hfirst.exists_serve current hplain (hleast budget hbudget) hkept

/-- A save, a load of what was saved, and a load of what is not there. -/
def visits : List Request :=
  [⟨"deep.json", .save {} .null, [0]⟩, ⟨"deep.json", .load none, []⟩,
    ⟨Path.join Path.dot "other.json", .load none, []⟩]

theorem plainIn_visits : ∀ r ∈ visits, FileTree.PlainIn {} [] r.path := by
  have hempty : ∀ name : RawText, FileTree.get? {} ([] ++ [name]) = none := by
    intro name
    simp [FileTree.get?]
  have hdeep : FileTree.PlainIn {} [] "deep.json" := by
    have hname : Path.name "deep.json" = RawText.ofText "deep.json" := by decide
    refine ⟨?_, by decide, by decide, Or.inl (hempty _)⟩
    rw [hname]
    exact emptyTree.names_deep
  have hhome : FileTree.resolve {} Path.dot = .ok ([], .directory) := by
    refine FileTree.resolve_eq_directory_iff.2 ⟨by decide, ?_⟩
    have hpieces : Path.pieces Path.dot = [Path.dot] := by decide
    rw [hpieces]
    exact FileTree.locate_dots rfl (by simp)
  have hother : FileTree.PlainIn {} [] (Path.join Path.dot "other.json") :=
    FileTree.PlainIn.join hhome (by decide) ⟨by decide, by decide, by decide⟩ (by decide)
      (by decide) (Or.inl (hempty _))
  simp [visits, hdeep, hother]

/-- The document that was saved is loaded, and the default where there is none. -/
theorem serve_as_map_visits :
    ∃ least, ∀ budget, least ≤ budget → ∃ t' log, serve () budget {} visits = some (t', log) ∧
      log.map (·.2) = [.saved (.ok ()), .loaded (.ok .null), .loaded (.ok (.object []))] := by
  have hnull : ∀ budget, Encoder.strict.toJson (budget + 1) .null = some (.ok .null) := fun _ => rfl
  have hreturns : ∀ r ∈ visits, ∃ budget, r.ReturnsWithin budget := by
    have hsave : ∃ budget, Request.ReturnsWithin budget ⟨"deep.json", .save {} .null, [0]⟩ := ⟨1, rfl⟩
    simpa [visits, Request.ReturnsWithin] using hsave
  obtain ⟨least, hleast⟩ := serve_as_map () {} [] visits plainIn_visits hreturns
  refine ⟨least + 1, fun budget hbudget => ?_⟩
  obtain ⟨budget, rfl⟩ : ∃ b, budget = b + 1 := ⟨budget - 1, by omega⟩
  obtain ⟨t', log, hserve, hrequests, -, hall⟩ := hleast (budget + 1) (by omega)
  have htries : [0] = 0 :: [] := rfl
  obtain ⟨u, hsave⟩ := emptyTree.exists_save () (o := {}) rfl (hnull budget) htries
  have hanswer : Request.answer () (budget + 1) {} ⟨"deep.json", .save {} .null, [0]⟩ =
      some (u, .saved (.ok ())) :=
    congrArg (Option.map fun s : Saved Unit => (s.tree, Response.saved s.outcome)) hsave
  have hvisits : serve () (budget + 1) {} visits = some (u,
      [(⟨"deep.json", .save {} .null, [0]⟩, .saved (.ok ())),
        (⟨"deep.json", .load none, []⟩, .loaded (loadDocument () u "deep.json" none).outcome),
        (⟨Path.join Path.dot "other.json", .load none, []⟩,
          .loaded (loadDocument () u (Path.join Path.dot "other.json") none).outcome)]) := by
    rw [visits, serve, hanswer]
    rfl
  obtain ⟨rfl, rfl⟩ := Prod.mk.inj (Option.some.inj (hserve.symm.trans hvisits))
  obtain ⟨outcome, houtcome, hsaved⟩ := hall [_] _ _ [_] rfl
  obtain ⟨outcome', houtcome', hdefault⟩ := hall [_, _] _ _ [] rfl
  have hdeep : latest (budget + 1) [(⟨"deep.json", .save {} .null, [0]⟩, .saved (.ok ()))]
      (Request.name ⟨"deep.json", .load none, []⟩) = some ⟨SaveOptions.mode {}, .null⟩ := by
    simp [latest, Request.name, Response.isSaved]
    rfl
  have hother : latest (budget + 1) [(⟨"deep.json", .save {} .null, [0]⟩, .saved (.ok ())),
      (⟨"deep.json", .load none, []⟩, .loaded (loadDocument () t' "deep.json" none).outcome)]
      (Request.name ⟨Path.join Path.dot "other.json", .load none, []⟩) = none := by
    have hne : (Path.name "deep.json" == Path.name (Path.join Path.dot "other.json")) = false := by
      decide
    simp [latest, Request.name, Response.isSaved, hne]
  rw [hdeep] at hsaved
  rw [hother] at hdefault
  have hnull' : outcome = .ok .null := hsaved trivial (by decide)
  have hempty : outcome' = .ok (.object []) := hdefault
  refine ⟨_, _, hvisits, ?_⟩
  rw [List.map_cons, List.map_cons, List.map_cons, List.map_nil, houtcome, houtcome', hnull', hempty]

end DocStore
