import DocStore.Proofs.Time.Calendar
import Mathlib
/-!
# Timestamps are read back from their texts

A text of RFC 3339 is read by its grammar: a date, a time of day with digits of a fraction or
without, and an offset in hours and minutes. A year that four digits do not hold has a sign in
front. What is read `Tells` an instant if its date falls on a day of the calendar from which
the seconds to the instant are those that the clock shows, and if its offset is that of the
clock to the nearest minute. The text of a timestamp is read, and tells it (`shows_text`).
-/

namespace DocStore

namespace Timestamp

/-- **What a text says**: date, time of day, a fraction of a second with so many digits, and
an offset in minutes. -/
structure Reading where
  date : Date
  hour : Nat
  minute : Nat
  second : Nat
  nanos : Nat
  places : Nat
  offset : Int

namespace Reading

/-- A character that is due. -/
def expect? (c : Char) : List Char → Option (List Char)
  | d :: rest => if d = c then some rest else none
  | [] => none

/-- As many digits as are due. -/
def digits? (width : Nat) (cs : List Char) : Option (Nat × List Char) :=
  if width ≤ cs.length ∧ (cs.take width).all Char.isDigit then
    some (Nat.ofDigitChars 10 (cs.take width) 0, cs.drop width)
  else none

/-- All digits that are there, if there are so many at least and at most. -/
def digitsUpTo? (least most : Nat) (cs : List Char) : Option (List Char × List Char) :=
  let digits := cs.takeWhile Char.isDigit
  if least ≤ digits.length ∧ digits.length ≤ most then
    some (digits, cs.dropWhile Char.isDigit)
  else none

/-- Four digits or more. -/
def long? (cs : List Char) : Option (Nat × List Char) :=
  (digitsUpTo? 4 cs.length cs).map fun (digits, cs) => (Nat.ofDigitChars 10 digits 0, cs)

/-- A year has four digits, or a sign and four or more. -/
def year? : List Char → Option (Int × List Char)
  | '-' :: cs => (long? cs).map fun (year, cs) => (-year, cs)
  | '+' :: cs => (long? cs).map fun (year, cs) => (year, cs)
  | cs => (digits? 4 cs).map fun (year, cs) => (year, cs)

/-- A fraction of a second: its nanoseconds, and how many digits it has. -/
def fraction? : List Char → Option ((Nat × Nat) × List Char)
  | '.' :: cs => (digitsUpTo? 1 9 cs).map fun (digits, cs) =>
      ((Nat.ofDigitChars 10 digits 0 * 10 ^ (9 - digits.length), digits.length), cs)
  | cs => some ((0, 0), cs)

/-- Hours and minutes at the end of a text, in minutes. -/
def clock? (cs : List Char) : Option Nat := do
  let (hours, cs) ← digits? 2 cs
  let cs ← expect? ':' cs
  let (minutes, cs) ← digits? 2 cs
  if cs = [] then pure (hours * 60 + minutes) else none

/-- An offset at the end of a text. -/
def offset? : List Char → Option Int
  | ['Z'] => some 0
  | '+' :: cs => (clock? cs).map fun (minutes : Nat) => (minutes : Int)
  | '-' :: cs => (clock? cs).map fun (minutes : Nat) => -(minutes : Int)
  | _ => none

/-- **Reads a text.** -/
def ofText? (s : String) : Option Reading := do
  let (year, cs) ← year? s.toList
  let cs ← expect? '-' cs
  let (month, cs) ← digits? 2 cs
  let cs ← expect? '-' cs
  let (day, cs) ← digits? 2 cs
  let cs ← expect? 'T' cs
  let (hour, cs) ← digits? 2 cs
  let cs ← expect? ':' cs
  let (minute, cs) ← digits? 2 cs
  let cs ← expect? ':' cs
  let (second, cs) ← digits? 2 cs
  let ((nanos, places), cs) ← fraction? cs
  let offset ← offset? cs
  pure ⟨⟨year, month, day⟩, hour, minute, second, nanos, places, offset⟩

/-- **What is read tells an instant.** The clock shows so many seconds and nanoseconds, where
a leap second is the sixtieth of its minute; the fraction has no more groups of three digits
than it takes; and the offset is rounded to minutes, half a minute away from zero. -/
structure Tells (r : Reading) (t : Timestamp) : Prop where
  clock : ∃ days, Date.FallsOn days r.date ∧
    (days * 86400 + r.hour * 3600 + r.minute * 60 + r.second) * 1000000000 + r.nanos =
      (t.seconds + t.offset) * 1000000000 + t.nanos
  hour : r.hour < 24
  minute : r.minute < 60
  second : r.second < 60 ∨ r.second = 60 ∧ 1000000000 ≤ t.nanos
  nanos : r.nanos < 1000000000
  places : r.places ∈ [0, 3, 6, 9]
  fewest : ∀ places ∈ [0, 3, 6, 9], r.nanos % 10 ^ (9 - places) = 0 → r.places ≤ places
  offset : r.offset.natAbs = (t.offset.natAbs + 30) / 60
  sign : 0 ≤ r.offset * t.offset

end Reading

/-- **A timestamp that a clock can show**: the nanoseconds are those of one second and of a
leap second at most, and the offset is less than a day. -/
structure IsShown (t : Timestamp) : Prop where
  nanos_lt : t.nanos < 2000000000
  offset_lt : t.offset.natAbs < 86400

/-- **A text shows a timestamp**: it is read, and what is read tells the instant. -/
def Shows (t : Timestamp) (s : String) : Prop :=
  ∃ r, Reading.ofText? s = some r ∧ r.Tells t

namespace Reading

variable {width n : Nat} {c : Char} {rest : List Char}

@[simp] theorem expect?_cons (c : Char) (rest : List Char) :
    expect? c (c :: rest) = some rest := if_pos rfl

/-- The marks between the digits. -/
theorem toList_marks : "-".toList = ['-'] ∧ "+".toList = ['+'] ∧ ":".toList = [':'] ∧
    "T".toList = ['T'] ∧ ".".toList = ['.'] := ⟨rfl, rfl, rfl, rfl, rfl⟩

/-! ## Digits -/

theorem toList_padded (width n : Nat) :
    (padded width n).toList = (Nat.toDigits 10 n).leftpad width '0' := String.toList_ofList

theorem isDigit_of_mem_padded (h : c ∈ (padded width n).toList) : c.isDigit = true := by
  rw [toList_padded, List.leftpad, List.mem_append] at h
  rcases h with h | h
  · rw [List.eq_of_mem_replicate h]
    decide
  · exact Nat.isDigit_of_mem_toDigits (by decide) (by decide) h

/-- Zeros in front do not change the number. -/
theorem ofDigitChars_padded (width n : Nat) :
    Nat.ofDigitChars 10 (padded width n).toList 0 = n := by
  rw [toList_padded, List.leftpad, Nat.ofDigitChars_append, Nat.ofDigitChars_replicate_zero,
    Nat.mul_zero, Nat.ofDigitChars_ten_toDigits]

theorem length_padded (hwidth : 0 < width) (hn : n < 10 ^ width) :
    (padded width n).toList.length = width := by
  have hlength := (Nat.length_toDigits_le_iff (by decide) hwidth).2 hn
  rw [toList_padded, List.length_leftpad, Nat.max_eq_left hlength]

/-- **A number in so many digits is read back**, whatever follows. -/
theorem digits?_padded (hwidth : 0 < width) (hn : n < 10 ^ width) (rest : List Char) :
    digits? width ((padded width n).toList ++ rest) = some (n, rest) := by
  have hlength := length_padded hwidth hn
  rw [digits?, List.take_left' hlength, List.drop_left' hlength, ofDigitChars_padded, if_pos]
  refine ⟨?_, List.all_eq_true.2 fun c => isDigit_of_mem_padded⟩
  rw [List.length_append, hlength]
  exact Nat.le_add_right ..

theorem digits?_two (hn : n < 100) (rest : List Char) :
    digits? 2 ((padded 2 n).toList ++ rest) = some (n, rest) := digits?_padded (by decide) hn rest

/-- **Digits are read to their end.** -/
theorem digitsUpTo?_append {least most : Nat} {digits : List Char}
    (hdigits : ∀ c ∈ digits, c.isDigit = true) (hleast : least ≤ digits.length)
    (hmost : digits.length ≤ most) (hrest : ∀ c ∈ rest.head?, c.isDigit = false) :
    digitsUpTo? least most (digits ++ rest) = some (digits, rest) := by
  have hstop : rest.takeWhile Char.isDigit = [] ∧ rest.dropWhile Char.isDigit = rest := by
    cases rest with
    | nil => exact ⟨rfl, rfl⟩
    | cons c rest =>
      have hc := hrest c rfl
      simp [hc]
  rw [digitsUpTo?, List.takeWhile_append_of_pos hdigits, List.dropWhile_append_of_pos hdigits,
    hstop.1, hstop.2, List.append_nil]
  exact if_pos ⟨hleast, hmost⟩

/-! ## The parts of a text -/

theorem four_le_length_padded (n : Nat) : 4 ≤ (padded 4 n).toList.length := by
  rw [toList_padded, List.length_leftpad]
  exact Nat.le_max_left ..

/-- What starts with a digit has no sign. -/
theorem year?_of_digit (hc : c.isDigit = true) :
    year? (c :: rest) = (digits? 4 (c :: rest)).map fun (year, cs) => ((year : Int), cs) := by
  rw [year?]
  · rintro cs ⟨⟩
    cases hc
  · rintro cs ⟨⟩
    cases hc

theorem long?_padded (n : Nat) (rest : List Char) :
    long? ((padded 4 n).toList ++ '-' :: rest) = some (n, '-' :: rest) := by
  have hhyphen : ∀ c ∈ ('-' :: rest).head?, c.isDigit = false := by
    rintro c ⟨⟩
    rfl
  have hlength : (padded 4 n).toList.length ≤ ((padded 4 n).toList ++ '-' :: rest).length := by
    rw [List.length_append]
    exact Nat.le_add_right ..
  rw [long?, digitsUpTo?_append (fun c => isDigit_of_mem_padded) (four_le_length_padded n) hlength
    hhyphen, Option.map_some]
  simp only [ofDigitChars_padded]

/-- **A year is read back.** -/
theorem year?_yearText (year : Int) (rest : List Char) :
    year? ((yearText year).toList ++ '-' :: rest) = some (year, '-' :: rest) := by
  rw [yearText]
  split
  next hfour =>
    simp only [Bool.and_eq_true, decide_eq_true_eq] at hfour
    have hfits : year.toNat < 10 ^ 4 := by omega
    have hdigits := digits?_padded (by decide) hfits ('-' :: rest)
    have hlength := four_le_length_padded year.toNat
    obtain ⟨c, cs, hcs⟩ := List.exists_cons_of_length_pos
      (show 0 < (padded 4 year.toNat).toList.length by omega)
    have hc : c.isDigit = true := isDigit_of_mem_padded (by rw [hcs]; exact List.mem_cons_self)
    have hyear : (year.toNat : Int) = year := Int.toNat_of_nonneg hfour.1
    rw [hcs, List.cons_append] at hdigits ⊢
    rw [year?_of_digit hc, hdigits, Option.map_some]
    simp only [hyear]
  next hsigned =>
    simp only [Bool.and_eq_true, decide_eq_true_eq] at hsigned
    have hlong := long?_padded year.natAbs rest
    obtain ⟨hminus, hplus, -⟩ := toList_marks
    by_cases hneg : year < 0
    · have hyear : -(year.natAbs : Int) = year := by omega
      rw [if_pos hneg, String.toList_append, hminus, List.append_assoc, List.singleton_append,
        year?, hlong, Option.map_some]
      simp only [hyear]
    · have hyear : (year.natAbs : Int) = year := by omega
      rw [if_neg hneg, String.toList_append, hplus, List.append_assoc, List.singleton_append,
        year?, hlong, Option.map_some]
      simp only [hyear]

/-- How many digits the fraction takes. -/
def placesOf (nanos : Nat) : Nat :=
  if nanos = 0 then 0 else if nanos % 1000000 = 0 then 3 else if nanos % 1000 = 0 then 6 else 9

/-- A fraction in so many digits is read back. -/
theorem fraction?_padded {places n : Nat} (hpos : 0 < places) (hmost : places ≤ 9)
    (hn : n < 10 ^ places) (hrest : ∀ c ∈ rest.head?, c.isDigit = false) :
    fraction? (("." ++ padded places n).toList ++ rest) =
      some ((n * 10 ^ (9 - places), places), rest) := by
  obtain ⟨-, -, -, -, hdot⟩ := toList_marks
  have hlength := length_padded hpos hn
  have hdigits : digitsUpTo? 1 9 ((padded places n).toList ++ rest) =
      some ((padded places n).toList, rest) :=
    digitsUpTo?_append (fun c => isDigit_of_mem_padded) (by omega) (by omega) hrest
  rw [String.toList_append, hdot, List.append_assoc, List.singleton_append, fraction?, hdigits,
    Option.map_some]
  simp only [ofDigitChars_padded, hlength]

/-- **A fraction is read back.** -/
theorem fraction?_fractionText {nanos : Nat} (hnanos : nanos < 1000000000)
    (hrest : ∀ c ∈ rest.head?, c.isDigit = false ∧ c ≠ '.') :
    fraction? ((fractionText nanos).toList ++ rest) = some ((nanos, placesOf nanos), rest) := by
  have hdigits : ∀ c ∈ rest.head?, c.isDigit = false := fun c hc => (hrest c hc).1
  unfold fractionText placesOf
  by_cases hzero : nanos = 0
  · rw [if_pos hzero, if_pos hzero, hzero, String.toList_empty, List.nil_append, fraction?]
    rintro cs rfl
    exact (hrest '.' rfl).2 rfl
  · rw [if_neg hzero, if_neg hzero]
    by_cases hmilli : nanos % 1000000 = 0
    · have hback : nanos / 1000000 * 10 ^ (9 - 3) = nanos := by omega
      rw [if_pos hmilli, if_pos hmilli,
        fraction?_padded (by decide) (by decide) (by omega) hdigits, hback]
    · rw [if_neg hmilli, if_neg hmilli]
      by_cases hmicro : nanos % 1000 = 0
      · have hback : nanos / 1000 * 10 ^ (9 - 6) = nanos := by omega
        rw [if_pos hmicro, if_pos hmicro,
          fraction?_padded (by decide) (by decide) (by omega) hdigits, hback]
      · have hback : nanos * 10 ^ (9 - 9) = nanos := Nat.mul_one nanos
        rw [if_neg hmicro, if_neg hmicro,
          fraction?_padded (by decide) (by decide) hnanos hdigits, hback]

theorem clock?_padded {hours minutes : Nat} (hhours : hours < 100) (hminutes : minutes < 100) :
    clock? ((padded 2 hours).toList ++ ':' :: (padded 2 minutes).toList) =
      some (hours * 60 + minutes) := by
  have hlast := digits?_two hminutes []
  rw [List.append_nil] at hlast
  simp only [clock?, digits?_two hhours, expect?_cons, hlast,
    Option.bind_eq_bind, Option.bind_some, if_true, pure]

/-- An offset in minutes, to the nearest one. -/
def minutesOf (offset : Int) : Int :=
  if offset < 0 then -((offset.natAbs + 30) / 60 : Nat) else ((offset.natAbs + 30) / 60 : Nat)

/-- **An offset is read back**, to the nearest minute. -/
theorem offset?_offsetText {offset : Int} (hoffset : offset.natAbs < 86400) :
    offset? (offsetText offset).toList = some (minutesOf offset) := by
  have hhours : (offset.natAbs + 30) / 60 / 60 < 100 := by omega
  have hrest : (offset.natAbs + 30) / 60 % 60 < 100 := by omega
  have hclock := clock?_padded hhours hrest
  have hminutes : (offset.natAbs + 30) / 60 / 60 * 60 + (offset.natAbs + 30) / 60 % 60 =
      (offset.natAbs + 30) / 60 := Nat.div_add_mod' ..
  obtain ⟨hminus, hplus, hcolon, -⟩ := toList_marks
  rw [hminutes] at hclock
  rw [offsetText, minutesOf]
  simp only [String.toList_append, hcolon, List.append_assoc, List.singleton_append]
  by_cases hneg : offset < 0
  · rw [if_pos hneg, if_pos hneg, hminus, List.singleton_append, offset?, hclock,
      Option.map_some]
  · rw [if_neg hneg, if_neg hneg, hplus, List.singleton_append, offset?, hclock,
      Option.map_some]

/-- An offset starts with its sign. -/
theorem head_offsetText {offset : Int} (h : c ∈ (offsetText offset).toList.head?) :
    c = '-' ∨ c = '+' := by
  obtain ⟨hminus, hplus, -⟩ := toList_marks
  rw [offsetText] at h
  simp only [String.toList_append, List.append_assoc] at h
  split at h
  · rw [hminus] at h
    exact Or.inl (Option.some.inj h).symm
  · rw [hplus] at h
    exact Or.inr (Option.some.inj h).symm

/-! ## The whole text -/

variable {t : Timestamp}

/-- What the text of a timestamp says. -/
def ofTimestamp (t : Timestamp) : Reading where
  date := Date.ofDays ((t.seconds + t.offset).fdiv 86400)
  hour := ((t.seconds + t.offset).fmod 86400).toNat / 3600
  minute := ((t.seconds + t.offset).fmod 86400).toNat / 60 % 60
  second := ((t.seconds + t.offset).fmod 86400).toNat % 60 + t.nanos / 1000000000
  nanos := t.nanos % 1000000000
  places := placesOf (t.nanos % 1000000000)
  offset := minutesOf t.offset

/-- **A fraction takes as many groups of digits as show it.** -/
theorem placesOf_le {nanos places : Nat} (hplaces : places ∈ [0, 3, 6, 9])
    (hnanos : nanos < 1000000000) (h : nanos % 10 ^ (9 - places) = 0) :
    placesOf nanos ≤ places := by
  unfold placesOf
  simp only [List.mem_cons, List.not_mem_nil, or_false] at hplaces
  rcases hplaces with rfl | rfl | rfl | rfl <;> split_ifs <;> omega

theorem placesOf_mem (nanos : Nat) : placesOf nanos ∈ [0, 3, 6, 9] := by
  unfold placesOf
  split
  · decide
  · split
    · decide
    · split <;> decide

/-- **What the text of a timestamp says tells it.** -/
theorem tells_ofTimestamp (h : t.IsShown) : (ofTimestamp t).Tells t where
  clock := by
    refine ⟨(t.seconds + t.offset).fdiv 86400, Date.fallsOn_iff.2 rfl, ?_⟩
    have hsplit := Int.mul_fdiv_add_fmod (t.seconds + t.offset) 86400
    have hpos := Int.fmod_nonneg_of_pos (t.seconds + t.offset) (show (0 : Int) < 86400 by decide)
    simp only [ofTimestamp]
    omega
  hour := by
    have hlt := Int.fmod_lt_of_pos (t.seconds + t.offset) (show (0 : Int) < 86400 by decide)
    simp only [ofTimestamp]
    omega
  minute := Nat.mod_lt _ (by decide)
  second := by
    have hnanos := h.nanos_lt
    simp only [ofTimestamp]
    omega
  nanos := Nat.mod_lt _ (by decide)
  places := placesOf_mem _
  fewest _ hplaces := placesOf_le hplaces (Nat.mod_lt _ (by decide))
  offset := by
    simp only [ofTimestamp, minutesOf]
    split <;> omega
  sign := by
    simp only [ofTimestamp, minutesOf]
    split
    next hneg => exact Int.mul_nonneg_of_nonpos_of_nonpos (by omega) (by omega)
    next hpos => exact Int.mul_nonneg (by omega) (by omega)

/-- **A text is made of what it says**, part by part. -/
theorem toList_text (t : Timestamp) :
    t.text.toList =
      (yearText (ofTimestamp t).date.year).toList ++
        '-' :: ((padded 2 (ofTimestamp t).date.month).toList ++
        '-' :: ((padded 2 (ofTimestamp t).date.day).toList ++
        'T' :: ((padded 2 (ofTimestamp t).hour).toList ++
        ':' :: ((padded 2 (ofTimestamp t).minute).toList ++
        ':' :: ((padded 2 (ofTimestamp t).second).toList ++
          ((fractionText (ofTimestamp t).nanos).toList ++ (offsetText t.offset).toList)))))) := by
  simp only [text, ofTimestamp, String.toList_append, toList_marks, List.append_assoc,
    List.cons_append, List.nil_append]

/-- **The text of a timestamp is read back.** -/
theorem ofText?_text (h : t.IsShown) : ofText? t.text = some (ofTimestamp t) := by
  have htells := tells_ofTimestamp h
  have hvalid : (ofTimestamp t).date.IsValid := Date.isValid_ofDays _
  have hmonth : (ofTimestamp t).date.month < 100 := by
    have htwelve := hvalid.month_le
    omega
  have hday : (ofTimestamp t).date.day < 100 := by
    have hlast := Nat.le_trans hvalid.day_le (Date.daysIn_le _ _)
    omega
  have hhour : (ofTimestamp t).hour < 100 := Nat.lt_trans htells.hour (by decide)
  have hminute : (ofTimestamp t).minute < 100 := Nat.lt_trans htells.minute (by decide)
  have hsecond : (ofTimestamp t).second < 100 := by
    have hsixty := htells.second
    omega
  have hrest : ∀ c ∈ (offsetText t.offset).toList.head?, c.isDigit = false ∧ c ≠ '.' := by
    intro c hc
    rcases head_offsetText hc with rfl | rfl <;> decide
  have hfraction := fraction?_fractionText htells.nanos hrest
  have hoffset := offset?_offsetText h.offset_lt
  rw [ofText?, toList_text]
  simp only [year?_yearText, expect?_cons, bind, Option.bind,
    digits?_two hmonth, digits?_two hday, digits?_two hhour, digits?_two hminute,
    digits?_two hsecond, hfraction, hoffset]
  rfl

/-- The offset that is read is that of the clock, if that is in whole minutes. -/
theorem Tells.offset_eq {r : Reading} (h : r.Tells t) (hminutes : t.offset % 60 = 0) :
    t.offset = r.offset * 60 := by
  have habs := h.offset
  rcases Int.lt_trichotomy r.offset 0 with hneg | hzero | hpos
  · have hle := Int.nonpos_of_mul_nonneg_right h.sign hneg
    omega
  · omega
  · have hge := Int.nonneg_of_mul_nonneg_right h.sign hpos
    omega

end Reading

/-- **The text of a timestamp shows it.** -/
theorem shows_text {t : Timestamp} (h : t.IsShown) : t.Shows t.text :=
  ⟨Reading.ofTimestamp t, Reading.ofText?_text h, Reading.tells_ofTimestamp h⟩

/-- **A text shows one instant on one clock**, if offsets are in whole minutes. -/
theorem Shows.instant_eq {s : String} {t t' : Timestamp} (h : t.Shows s) (h' : t'.Shows s)
    (hminutes : t.offset % 60 = 0) (hminutes' : t'.offset % 60 = 0) :
    t.offset = t'.offset ∧
      t.seconds * 1000000000 + t.nanos = t'.seconds * 1000000000 + t'.nanos := by
  obtain ⟨r, hread, htells⟩ := h
  obtain ⟨r', hread', htells'⟩ := h'
  obtain rfl := Option.some.inj (hread.symm.trans hread')
  obtain ⟨days, hfalls, hclock⟩ := htells.clock
  obtain ⟨days', hfalls', hclock'⟩ := htells'.clock
  obtain rfl := hfalls.days_eq hfalls'
  have hoffset : t.offset = t'.offset :=
    (htells.offset_eq hminutes).trans (htells'.offset_eq hminutes').symm
  exact ⟨hoffset, by omega⟩

end Timestamp

end DocStore
