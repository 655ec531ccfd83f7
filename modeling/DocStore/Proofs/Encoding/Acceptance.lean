import DocStore.Proofs.Encoding.Distinct
import DocStore.Proofs.Encoding.Sufficiency
import DocStore.Proofs.Time.Reading
import DocStore.Proofs.Time.Seconds
/-!
# What the stock encoders accept

Encoding counts substitutes in a row: lists and objects start the count anew,
records go on with it. Here what a stock encoder accepts is said without a count,
of everything that is met on the way into the node (`Acceptable`), and what comes
of an acceptable node is said position by position (`Node.Image`).
-/

namespace DocStore

namespace Node

/-- **What is met on the way into a node**, through the elements of lists, the
values of objects, and those sets and records that the way leads through. -/
inductive Meets (through : Node → Prop) (n : Node) : Node → Prop
  | self : Meets through n n
  | item {items : List Node} {v : Node} (h : Meets through n (.array items)) (hv : v ∈ items) :
      Meets through n v
  | value {entries : List (Key × Node)} {entry : Key × Node}
      (h : Meets through n (.object entries)) (hentry : entry ∈ entries) :
      Meets through n entry.2
  | element {items : List Node} {v : Node} (h : Meets through n (.set items))
      (hthrough : through (.set items)) (hv : v ∈ items) : Meets through n v
  | rendering {tag : RecordTag} {rendering : Option Node}
      (h : Meets through n (.record tag rendering))
      (hthrough : through (.record tag rendering)) :
      Meets through n (Node.rendered tag rendering)

theorem Meets.trans {through : Node → Prop} {n m l : Node} (h : n.Meets through m)
    (h' : m.Meets through l) : n.Meets through l := by
  induction h' with
  | self => exact h
  | item _ hv ih => exact ih.item hv
  | value _ hentry ih => exact ih.value hentry
  | element _ hthrough hv ih => exact ih.element hthrough hv
  | rendering _ hthrough ih => exact ih.rendering hthrough

/-- **So many records in a row**, each rendering to the next and the last of them
to `m`. -/
def RendersIn : Nat → Node → Node → Prop
  | 0, n, m => n = m
  | k + 1, n, m => ∃ tag rendering, n = .record tag rendering ∧
      RendersIn k (rendered tag rendering) m

/-- A record without a rendering renders to itself as often as one likes. -/
theorem rendersIn_self (tag : RecordTag) (k : Nat) :
    (Node.record tag none).RendersIn k (.record tag none) := by
  induction k with
  | zero => rfl
  | succ k ih => exact ⟨tag, none, rfl, ih⟩

/-- **The value that a node is the image of**, position by position. Lists and
sets keep their elements in order, objects their entries under the names of their
keys, a record has the image of what it renders to, and a timestamp has a text that is
read as the instant on its clock. -/
inductive Image : Node → Json → Prop
  | null : Image .null .null
  | bool (b : Bool) : Image (.bool b) (.bool b)
  | int (i : Int64) : Image (.int i) (.number (.ofInt64 i))
  | uint (u : UInt64) : Image (.uint u) (.number (.ofUInt64 u))
  | float (x : Float) (h : x.isFinite = true) : Image (.float x) (.number (.float x h))
  | string (s : String) : Image (.string s) (.string s)
  | array {items : List Node} {ws : List Json} (h : List.Forall₂ Image items ws) :
      Image (.array items) (.array ws)
  | object {entries : List (Key × Node)} {members : List (String × Json)}
      (hnames : (entries.map fun entry => entry.1.name) = members.map fun member => .ok member.1)
      (hvalues : List.Forall₂ Image (entries.map (·.2)) (members.map (·.2))) :
      Image (.object entries) (.object members)
  | set {items : List Node} {ws : List Json} (h : List.Forall₂ Image items ws) :
      Image (.set items) (.array ws)
  | timestamp (t : Timestamp) (h : t.IsShown → t.Shows t.text) :
      Image (.timestamp t) (.string t.text)
  | duration (d : Duration) : Image (.duration d) (.object [("__type", .string "duration"),
      ("total_seconds", .number (.float d.totalSeconds d.isFinite_totalSeconds))])
  | bytes (bs : List UInt8) : Image (.bytes bs) (.object [("__type", .string "bytes"),
      ("repr", .string (Node.text (.bytes bs)))])
  | record {tag : RecordTag} {rendering : Option Node} {w : Json}
      (h : Image (rendered tag rendering) w) : Image (.record tag rendering) w
  | foreign (typeName repr : String) : Image (.foreign typeName repr)
      (.object [("__type", .string typeName), ("repr", .string repr)])

end Node

/-- **A valid key** is neither composite nor a float that is not finite. -/
def Key.Valid : Key → Prop
  | .float x => x.isFinite = true
  | .composite _ => False
  | _ => True

/-- A key is valid if it has a name. -/
theorem Key.valid_iff {key : Key} : key.Valid ↔ ∃ name, key.name = .ok name := by
  cases key with
  | float x => by_cases h : x.isFinite = true <;> simp [Key.Valid, Key.name, h]
  | _ => simp [Key.Valid, Key.name]

namespace Encoder

variable {e : Encoder} {v n m substitute : Node} {budget chain k : Nat} {w : Json}

/-- **What a stock encoder comes to in a node.** Plain JSON has no way into sets
and records. -/
def ComesTo (e : Encoder) (v m : Node) : Prop :=
  v.Meets (fun _ => e = standard ∨ e = extended) m

/-- **What a stock encoder has no substitute for.** -/
def Lacks (e : Encoder) : Node → Prop
  | .set _ | .timestamp _ | .record _ _ => e = strict
  | .duration _ | .bytes _ | .foreign _ _ => e = strict ∨ e = standard
  | _ => False

/-- **What a stock encoder accepts.** Floats are finite, keys are valid and their
names differ, nothing lacks a substitute, and as many records in a row as the limit
allows lead to a value with a JSON form of its own. -/
structure Acceptable (e : Encoder) (v : Node) : Prop where
  finite : ∀ x, e.ComesTo v (.float x) → x.isFinite = true
  valid : ∀ entries, e.ComesTo v (.object entries) → ∀ entry ∈ entries, entry.1.Valid
  names : ∀ entries, e.ComesTo v (.object entries) →
    entries.Pairwise fun entry entry' => entry.1.name ≠ entry'.1.name
  supported : ∀ n, e.ComesTo v n → ¬ e.Lacks n
  records : ∀ n m, e.ComesTo v n → n.RendersIn chainLimit m → m.isNative = true

/-! ## The stock encoders -/

theorem standard_ne_strict : standard ≠ strict := by
  intro h
  have hset : standard.fallback (.set []) = strict.fallback (.set []) := by rw [h]
  cases hset

theorem extended_ne_strict : extended ≠ strict := by
  intro h
  have hset : extended.fallback (.set []) = strict.fallback (.set []) := by rw [h]
  cases hset

theorem extended_ne_standard : extended ≠ standard := by
  intro h
  have hbytes : extended.fallback (.bytes []) = standard.fallback (.bytes []) := by rw [h]
  cases hbytes

/-- Only two of the stock encoders have substitutes. -/
theorem Stock.through (he : e.Stock) (hsubstitute : e.fallback n = some substitute) :
    e = Encoder.standard ∨ e = Encoder.extended := by
  cases he with
  | strict => cases hsubstitute
  | standard => exact Or.inl rfl
  | extended => exact Or.inr rfl

/-- An encoder lacks a substitute for what is not native and what it gives none
for. -/
theorem Stock.lacks_iff (he : e.Stock) : e.Lacks n ↔ n.isNative = false ∧ e.fallback n = none := by
  cases he with
  | strict => cases n <;> simp [Lacks, Node.isNative, Encoder.strict]
  | standard =>
    cases n <;> simp [Lacks, Node.isNative, standard_ne_strict] <;> simp [Encoder.standard]
  | extended =>
    cases n <;> simp [Lacks, Node.isNative, extended_ne_strict, extended_ne_standard] <;>
      simp [Encoder.extended]

/-- **Only a record has a substitute that is not native**, and it is what the
record renders to. -/
theorem Stock.rendered_or_native (he : e.Stock) (hnative : n.isNative = false)
    (hsubstitute : e.fallback n = some substitute) :
    (∃ tag rendering, n = .record tag rendering ∧ substitute = Node.rendered tag rendering) ∨
      substitute.isNative = true := by
  cases he with
  | strict => cases hsubstitute
  | standard =>
    cases n with
    | record tag rendering => cases hsubstitute; exact Or.inl ⟨tag, rendering, rfl, rfl⟩
    | set _ | timestamp _ => cases hsubstitute; exact Or.inr rfl
    | duration _ | bytes _ | foreign _ _ => cases hsubstitute
    | _ => cases hnative
  | extended =>
    cases n with
    | record tag rendering => cases hsubstitute; exact Or.inl ⟨tag, rendering, rfl, rfl⟩
    | set _ | timestamp _ | duration _ | bytes _ | foreign _ _ =>
      cases hsubstitute
      exact Or.inr rfl
    | _ => cases hnative

/-! ## Names of keys -/

/-- **Keys have names of their own** if they are valid, none of their names is taken
and their names differ. -/
theorem hasNames_iff {taken : List String} {entries : List (Key × Node)} :
    HasNames taken entries ↔
      (∀ entry ∈ entries, entry.1.Valid) ∧
      (∀ entry ∈ entries, ∀ name ∈ taken, entry.1.name ≠ .ok name) ∧
      entries.Pairwise fun entry entry' => entry.1.name ≠ entry'.1.name := by
  induction entries generalizing taken with
  | nil => simp [HasNames]
  | cons entry rest ih =>
    obtain ⟨key, v⟩ := entry
    rw [HasNames, List.pairwise_cons, List.forall_mem_cons, List.forall_mem_cons]
    constructor
    · rintro ⟨name, hname, hfree, hrest⟩
      obtain ⟨hvalid, htaken, hdiffer⟩ := ih.1 hrest
      have hnew : ∀ other ∈ taken, key.name ≠ .ok other := by
        intro other hother heq
        rw [hname] at heq
        obtain rfl := Except.ok.inj heq
        exact hfree hother
      refine ⟨⟨Key.valid_iff.2 ⟨name, hname⟩, hvalid⟩, ⟨hnew, ?_⟩, ?_, hdiffer⟩
      · exact fun entry hentry other hother =>
          htaken entry hentry other (List.mem_cons_of_mem name hother)
      · intro entry hentry heq
        exact htaken entry hentry name (List.mem_cons_self ..) (heq.symm.trans hname)
    · rintro ⟨⟨hkey, hvalid⟩, ⟨hnew, htaken⟩, hself, hdiffer⟩
      obtain ⟨name, hname⟩ := Key.valid_iff.1 hkey
      refine ⟨name, hname, fun hmem => hnew name hmem hname, ih.2 ⟨hvalid, ?_, hdiffer⟩⟩
      intro entry hentry other hother heq
      rcases List.mem_cons.1 hother with rfl | hother
      · exact hself entry hentry (hname.trans heq.symm)
      · exact htaken entry hentry other hother heq

/-! ## Acceptance is needed -/

/-- If a value encodes, so does its substitute. -/
theorem encodes_substitute (hnative : n.isNative = false) (h : e.Encodes n) :
    ∃ substitute, e.fallback n = some substitute ∧ e.Encodes substitute := by
  obtain ⟨k, hk, htakes⟩ := encodes_iff_takes.1 h
  cases k with
  | zero =>
    have htrue := (takes_zero.1 htakes).1
    rw [hnative] at htrue
    cases htrue
  | succ k =>
    obtain ⟨-, substitute, hsubstitute, htakes⟩ := takes_succ.1 htakes
    exact ⟨substitute, hsubstitute, encodes_iff_takes.2 ⟨k, by omega, htakes⟩⟩

/-- What a record stands for under an encoder that renders records. -/
theorem fallback_record (he : e = standard ∨ e = extended) (tag : RecordTag)
    (rendering : Option Node) :
    e.fallback (.record tag rendering) = some (Node.rendered tag rendering) := by
  rcases he with rfl | rfl <;> rfl

theorem fallback_set (he : e = standard ∨ e = extended) (items : List Node) :
    e.fallback (.set items) = some (.array items) := by
  rcases he with rfl | rfl <;> rfl

/-- **If a node encodes, so does all that the encoder comes to in it.** -/
theorem encodes_of_comesTo (hv : e.Encodes v) (h : e.ComesTo v m) : e.Encodes m := by
  induction h with
  | self => exact hv
  | item _ hu ih => exact encodes_array_iff.1 ih _ hu
  | value _ hentry ih => exact (encodes_object_iff.1 ih).2 _ hentry
  | element _ hthrough hu ih =>
    obtain ⟨substitute, hsubstitute, hlist⟩ := encodes_substitute rfl ih
    rw [fallback_set hthrough] at hsubstitute
    obtain rfl := Option.some.inj hsubstitute
    exact encodes_array_iff.1 hlist _ hu
  | rendering _ hthrough ih =>
    obtain ⟨substitute, hsubstitute, hrendered⟩ := encodes_substitute rfl ih
    rw [fallback_record hthrough] at hsubstitute
    obtain rfl := Option.some.inj hsubstitute
    exact hrendered

/-- **Records in a row take a substitute each.** -/
theorem Stock.takes_of_rendersIn (he : e.Stock) (h : n.RendersIn k m) {j : Nat}
    (htakes : e.Takes j n) : ∃ i, j = i + k ∧ e.Takes i m := by
  induction k generalizing n j with
  | zero =>
    obtain rfl : n = m := h
    exact ⟨j, rfl, htakes⟩
  | succ k ih =>
    obtain ⟨tag, rendering, rfl, h⟩ := h
    cases j with
    | zero => cases (takes_zero.1 htakes).1
    | succ j =>
      obtain ⟨-, substitute, hsubstitute, htakes⟩ := takes_succ.1 htakes
      have hrendered : substitute = Node.rendered tag rendering := by
        cases he <;> cases hsubstitute <;> rfl
      subst hrendered
      obtain ⟨i, rfl, hi⟩ := ih h htakes
      exact ⟨i, by omega, hi⟩

/-- **What encodes is acceptable.** -/
theorem Stock.acceptable_of_encodes (he : e.Stock) (hv : e.Encodes v) : e.Acceptable v where
  finite x hx := by
    obtain ⟨budget, w, h⟩ := encodes_of_comesTo hv hx
    cases budget with
    | zero => cases h
    | succ budget =>
      by_contra hinfinite
      rw [toJson, encode, dif_neg hinfinite] at h
      cases h
  valid entries hentries := by
    have hnames := (encodes_object_iff.1 (encodes_of_comesTo hv hentries)).1
    exact (hasNames_iff.1 hnames).1
  names entries hentries := by
    have hnames := (encodes_object_iff.1 (encodes_of_comesTo hv hentries)).1
    exact (hasNames_iff.1 hnames).2.2
  supported n hn hlacks := by
    obtain ⟨hnative, hnone⟩ := he.lacks_iff.1 hlacks
    obtain ⟨substitute, hsubstitute, -⟩ := encodes_substitute hnative (encodes_of_comesTo hv hn)
    rw [hnone] at hsubstitute
    cases hsubstitute
  records n m hn hm := by
    obtain ⟨k, hk, htakes⟩ := encodes_iff_takes.1 (encodes_of_comesTo hv hn)
    obtain ⟨i, rfl, hi⟩ := he.takes_of_rendersIn hm htakes
    have hzero : i = 0 := by omega
    subst hzero
    exact (takes_zero.1 hi).1

/-! ## Acceptance is enough -/

/-- Whatever an encoder comes to in an acceptable node is acceptable. -/
theorem Acceptable.of_comesTo (hv : e.Acceptable v) (h : e.ComesTo v m) : e.Acceptable m where
  finite x hx := hv.finite x (h.trans hx)
  valid entries hentries := hv.valid entries (h.trans hentries)
  names entries hentries := hv.names entries (h.trans hentries)
  supported n hn := hv.supported n (h.trans hn)
  records n l hn := hv.records n l (h.trans hn)

/-- **What takes more than one substitute starts with records**, each rendering to
the next. -/
theorem Stock.rendersIn_of_takes (he : e.Stock) (h : e.Takes (k + 1) n) :
    ∃ m, n.RendersIn k m ∧ e.Takes 1 m := by
  induction k generalizing n with
  | zero => exact ⟨n, rfl, h⟩
  | succ k ih =>
    obtain ⟨hnative, substitute, hsubstitute, htakes⟩ := takes_succ.1 h
    rcases he.rendered_or_native hnative hsubstitute with ⟨tag, rendering, rfl, rfl⟩ | hlast
    · obtain ⟨m, hm, hone⟩ := ih htakes
      exact ⟨m, ⟨tag, rendering, rfl, hm⟩, hone⟩
    · have hmore := (takes_succ.1 htakes).1
      rw [hlast] at hmore
      cases hmore

/-- **A value encodes if its substitute does**, unless it starts a row of records as
long as the limit that a native value does not end. -/
theorem Stock.encodes_of_substitute (he : e.Stock) (hnative : n.isNative = false)
    (hsubstitute : e.fallback n = some substitute) (h : e.Encodes substitute)
    (hrecords : ∀ m, n.RendersIn chainLimit m → m.isNative = true) : e.Encodes n := by
  by_contra hrefused
  have htakes := takes_limit_of_substitute hnative hsubstitute hrefused h
  obtain ⟨m, hm, hone⟩ := he.rendersIn_of_takes htakes
  have hlast := (takes_succ.1 hone).1
  rw [hrecords m hm] at hlast
  cases hlast

theorem encodes_described (n : Node) : e.Encodes (described n) := ⟨2, _, rfl⟩

theorem encodes_inSeconds (d : Duration) : e.Encodes (inSeconds d) := by
  refine encodes_object_iff.2 ⟨?_, ?_⟩
  · exact ⟨"__type", rfl, by simp, "total_seconds", rfl, by simp, trivial⟩
  · have hseconds : e.Encodes (.float d.totalSeconds) :=
      ⟨1, .number (.float d.totalSeconds d.isFinite_totalSeconds), dif_pos d.isFinite_totalSeconds⟩
    have htype : e.Encodes (.string "duration") := ⟨1, _, rfl⟩
    simpa using ⟨htype, hseconds⟩

/-- **What is acceptable encodes.** -/
theorem Stock.encodes_of_acceptable (he : e.Stock) (hv : e.Acceptable v) : e.Encodes v := by
  induction hheight : v.height using Nat.strong_induction_on generalizing v with
  | _ height ih =>
    subst hheight
    have hlower : ∀ m, e.ComesTo v m → m.height < v.height → e.Encodes m :=
      fun m hm hlt => ih m.height hlt (hv.of_comesTo hm) rfl
    cases hnative : v.isNative with
    | true =>
      cases v with
      | array items =>
        refine encodes_array_iff.2 fun u hu => hlower u (Node.Meets.self.item hu) ?_
        exact Nat.lt_succ_of_le (Node.height_le_heightAll hu)
      | object entries =>
        refine encodes_object_iff.2 ⟨?_, fun entry hentry => ?_⟩
        · exact hasNames_iff.2 ⟨hv.valid entries .self, by simp, hv.names entries .self⟩
        · refine hlower entry.2 (Node.Meets.self.value hentry) ?_
          exact Nat.lt_succ_of_le (Node.height_le_heightEntries hentry)
      | float x =>
        have hfinite := hv.finite x .self
        exact ⟨1, .number (.float x hfinite), dif_pos hfinite⟩
      | null | bool _ | int _ | uint _ | string _ => exact ⟨1, _, rfl⟩
      | _ => cases hnative
    | false =>
      cases hfallback : e.fallback v with
      | none => exact absurd (he.lacks_iff.2 ⟨hnative, hfallback⟩) (hv.supported v .self)
      | some substitute =>
        refine he.encodes_of_substitute hnative hfallback ?_ fun m => hv.records v m .self
        have hthrough := he.through hfallback
        cases v with
        | set items =>
          obtain rfl := Option.some.inj ((fallback_set hthrough items).symm.trans hfallback)
          refine encodes_array_iff.2 fun u hu => hlower u (Node.Meets.self.element hthrough hu) ?_
          have hle := Node.height_le_heightAll hu
          rw [Node.height]
          omega
        | record tag rendering =>
          obtain rfl :=
            Option.some.inj ((fallback_record hthrough tag rendering).symm.trans hfallback)
          cases rendering with
          | some n => exact hlower n (Node.Meets.self.rendering hthrough) (Nat.lt_succ_self _)
          | none =>
            -- a record that renders to itself is a row of any length
            have hself := hv.records _ _ .self (Node.rendersIn_self tag chainLimit)
            cases hself
        | timestamp _ | duration _ | bytes _ | foreign _ _ =>
          rcases hthrough with rfl | rfl <;> cases hfallback <;>
            first | exact ⟨1, _, rfl⟩ | exact encodes_inSeconds _ | exact encodes_described _
        | _ => cases hnative

/-! ## What comes of a node -/

variable {f : Node → Attempt Json}

theorem image_of_encodeItems (hf : ∀ n w, (f n).run = some (.ok w) → n.Image w)
    {items : List Node} {ws : List Json} (h : (encodeItems f items).run = some (.ok ws)) :
    List.Forall₂ Node.Image items ws :=
  (forall₂_of_encodeItems h).imp hf

/-- Members stand in the order of their entries, under the names of the keys. -/
theorem image_of_encodeEntries (hf : ∀ n w, (f n).run = some (.ok w) → n.Image w)
    {taken : List String} {entries : List (Key × Node)} {members : List (String × Json)}
    (h : (encodeEntries f taken entries).run = some (.ok members)) :
    (entries.map fun entry => entry.1.name) = (members.map fun member => .ok member.1) ∧
      List.Forall₂ Node.Image (entries.map (·.2)) (members.map (·.2)) := by
  have hmembers := forall₂_of_encodeEntries h
  constructor
  · rw [← List.forall₂_eq_eq_eq, List.forall₂_map_left_iff, List.forall₂_map_right_iff]
    exact hmembers.imp fun _ _ hentry => hentry.1
  · rw [List.forall₂_map_left_iff, List.forall₂_map_right_iff]
    exact hmembers.imp fun entry member hentry => hf entry.2 member.2 hentry.2

/-- **The image of an object with two entries** has two members. -/
theorem image_pair {name name' : String} {u u' : Node}
    (h : (Node.object [(.string name, u), (.string name', u')]).Image w) :
    ∃ x x', w = .object [(name, x), (name', x')] ∧ u.Image x ∧ u'.Image x' := by
  cases h with
  | @object _ members hnames hvalues =>
    rcases members with _ | ⟨⟨a, x⟩, _ | ⟨⟨a', x'⟩, _ | ⟨_, _⟩⟩⟩
    · cases hvalues
    · cases hvalues with
      | cons _ hrest => cases hrest
    · cases hvalues with
      | cons hx hrest =>
        cases hrest with
        | cons hx' _ =>
          simp only [List.map_cons, List.map_nil, Key.name, List.cons.injEq, Except.ok.injEq] at hnames
          obtain ⟨rfl, rfl, -⟩ := hnames
          exact ⟨x, x', rfl, hx, hx'⟩
    · cases hvalues with
      | cons _ hrest =>
        cases hrest with
        | cons _ hrest => cases hrest

theorem image_string {s : String} (h : (Node.string s).Image w) : w = .string s := by
  cases h with
  | string _ => rfl

theorem image_float {x : Float} (h : (Node.float x).Image w) :
    ∃ hfinite : x.isFinite = true, w = .number (.float x hfinite) := by
  cases h with
  | float _ hfinite => exact ⟨hfinite, rfl⟩

theorem image_described (h : (described n).Image w) :
    w = .object [("__type", .string n.typeName), ("repr", .string n.text)] := by
  obtain ⟨x, x', rfl, hx, hx'⟩ := image_pair h
  obtain rfl := image_string hx
  obtain rfl := image_string hx'
  rfl

/-- **The image of a substitute is the image of what it stands for.** -/
theorem Stock.image_of_substitute (he : e.Stock) (hnative : n.isNative = false)
    (hsubstitute : e.fallback n = some substitute) (h : substitute.Image w) : n.Image w := by
  have hthrough := he.through hsubstitute
  cases n with
  | set items =>
    obtain rfl := Option.some.inj ((fallback_set hthrough items).symm.trans hsubstitute)
    cases h with
    | array hitems => exact .set hitems
  | record tag rendering =>
    obtain rfl := Option.some.inj ((fallback_record hthrough tag rendering).symm.trans hsubstitute)
    exact .record h
  | timestamp t =>
    have htext : substitute = .string t.text := by
      rcases hthrough with rfl | rfl <;> cases hsubstitute <;> rfl
    subst htext
    obtain rfl := image_string h
    exact .timestamp t Timestamp.shows_text
  | duration d =>
    have hseconds : substitute = inSeconds d := by
      rcases hthrough with rfl | rfl <;> cases hsubstitute
      rfl
    subst hseconds
    obtain ⟨x, x', rfl, hx, hx'⟩ := image_pair h
    obtain rfl := image_string hx
    obtain ⟨hfinite, rfl⟩ := image_float hx'
    exact .duration d
  | bytes bs =>
    have hdescribed : substitute = described (.bytes bs) := by
      rcases hthrough with rfl | rfl <;> cases hsubstitute
      rfl
    subst hdescribed
    obtain rfl := image_described h
    exact .bytes bs
  | foreign typeName repr =>
    have hdescribed : substitute = described (.foreign typeName repr) := by
      rcases hthrough with rfl | rfl <;> cases hsubstitute
      rfl
    subst hdescribed
    obtain rfl := image_described h
    exact .foreign typeName repr
  | _ => cases hnative

/-- **A stock encoder gives the image of the node.** -/
theorem Stock.image_of_encode (he : e.Stock)
    (h : (e.encode budget chain n).run = some (.ok w)) : n.Image w := by
  induction budget generalizing chain n w with
  | zero => cases h
  | succ budget ih =>
    cases hnative : n.isNative with
    | true =>
      cases n with
      | array items =>
        rw [encode] at h
        obtain ⟨ws, hws, h⟩ := run_bind_eq_ok.1 h
        cases h
        exact .array (image_of_encodeItems (fun _ _ => ih) hws)
      | object entries =>
        rw [encode] at h
        obtain ⟨members, hmembers, h⟩ := run_bind_eq_ok.1 h
        cases h
        obtain ⟨hnames, hvalues⟩ := image_of_encodeEntries (fun _ _ => ih) hmembers
        exact .object hnames hvalues
      | float x =>
        simp only [encode] at h
        split at h
        next hfinite =>
          cases h
          exact .float x hfinite
        next => cases h
      | null | bool _ | int _ | uint _ | string _ =>
        cases h
        constructor
      | _ => cases hnative
    | false =>
      rw [encode_of_not_native hnative] at h
      split at h
      next => cases h
      next =>
        split at h
        next substitute hsubstitute => exact he.image_of_substitute hnative hsubstitute (ih h)
        next => cases h

/-! ## Acceptance and result -/

/-- **A stock encoder accepts a node exactly if all it comes to there is
acceptable**, and then gives the image of the node. It returns within every budget
that the height of the node fits. -/
theorem toJson_stock (e : Encoder) (he : e.Stock) (v : Node) (budget : Nat)
    (hbudget : v.height ≤ budget) :
    ∃ result, e.toJson budget v = some result ∧
      ((∃ w, result = .ok w) ↔ e.Acceptable v) ∧ ∀ w, result = .ok w → v.Image w := by
  obtain ⟨result, hresult⟩ := Option.isSome_iff_exists.1 (he.isSome_toJson hbudget)
  have haccepted : (∃ w, result = .ok w) ↔ e.Acceptable v := by
    rw [← encodes_iff_of_toJson hresult]
    exact ⟨he.acceptable_of_encodes, he.encodes_of_acceptable⟩
  refine ⟨result, hresult, haccepted, fun w hw => ?_⟩
  rw [hw] at hresult
  exact he.image_of_encode hresult

/-- The leap day of the year 2000, on a clock east of universal time. -/
def leapDay : Timestamp := ⟨951782400, 500000000, 3600⟩

theorem text_leapDay : leapDay.text = "2000-02-29T01:00:00.500+01:00" := by decide +kernel

/-- A minute and a half. -/
def shortWhile : Duration := ⟨90, 0, by decide⟩

/-- An instant in a set under a number, a span of time, and bytes in a record. -/
def assorted : Node :=
  .object [(.int 1, .set [.timestamp leapDay]), (.string "d", .duration shortWhile),
    (.string "r", .record ⟨"R", none, 0⟩ (some (.bytes [])))]

/-- What stands for it. -/
def assortedImage : Json :=
  .object [("1", .array [.string "2000-02-29T01:00:00.500+01:00"]),
    ("d", .object [("__type", .string "duration"), ("total_seconds",
      .number (.float shortWhile.totalSeconds shortWhile.isFinite_totalSeconds))]),
    ("r", .object [("__type", .string "bytes"), ("repr", .string "b\"\"")])]

/-- Nothing stands for the span under the standard encoder; under the extended one
everything has a form, and the text of the instant is read. -/
theorem toJson_stock_assorted :
    assorted.height ≤ 6 ∧ ¬ standard.Acceptable assorted ∧ extended.Acceptable assorted ∧
      assorted.Image assortedImage ∧ leapDay.IsShown ∧
      leapDay.Shows "2000-02-29T01:00:00.500+01:00" := by
  have hheight : assorted.height ≤ 6 := by decide
  obtain ⟨result, hresult, hiff, -⟩ := toJson_stock standard .standard assorted 6 hheight
  obtain ⟨result', hresult', hiff', himage⟩ := toJson_stock extended .extended assorted 6 hheight
  have hrefused : standard.toJson 6 assorted = some (.error (.unsupported "duration")) := rfl
  have hencoded : extended.toJson 6 assorted = some (.ok assortedImage) := by
    rw [assortedImage, ← text_leapDay]
    rfl
  rw [hrefused] at hresult
  rw [hencoded] at hresult'
  obtain rfl := Option.some.inj hresult
  obtain rfl := Option.some.inj hresult'
  have hshown : leapDay.IsShown := ⟨by decide, by decide⟩
  refine ⟨hheight, fun hacceptable => ?_, hiff'.1 ⟨_, rfl⟩, himage _ rfl, hshown, ?_⟩
  · obtain ⟨w, hw⟩ := hiff.2 hacceptable
    cases hw
  · rw [← text_leapDay]
    exact Timestamp.shows_text hshown

end Encoder

end DocStore
