import DocStore.Time.Timestamp
import Mathlib.Data.Int.Init
import Mathlib.Order.Monotone.Basic
import Mathlib.Tactic.Common
/-!
# The calendar, day by day

A calendar says which day follows which. The dates of the Gregorian one are said here by
counting from the first of January 1970, forwards and backwards (`FallsOn`), and the date
that is computed for a day is the only one that falls on it (`fallsOn_iff`). The computation
counts years from March in eras of 400 years, so what is proved of it is that the day after
a day of such a year is its next day, or the first one of the next.
-/

namespace DocStore

namespace Timestamp

namespace Date

/-- **Whether a year has a leap day.** -/
def isLeap (year : Int) : Bool := year % 4 = 0 && (year % 100 ≠ 0 || year % 400 = 0)

/-- The days of a month, in a year with a leap day or without. -/
def daysIn (leap : Bool) : (month : Nat) → Nat
  | 2 => if leap then 29 else 28
  | 4 | 6 | 9 | 11 => 30
  | _ => 31

/-- **The day after.** -/
def next (date : Date) : Date :=
  if date.day < daysIn (isLeap date.year) date.month then { date with day := date.day + 1 }
  else if date.month < 12 then ⟨date.year, date.month + 1, 1⟩
  else ⟨date.year + 1, 1, 1⟩

/-- **A date that the calendar has.** -/
structure IsValid (date : Date) : Prop where
  month_pos : 1 ≤ date.month
  month_le : date.month ≤ 12
  day_pos : 1 ≤ date.day
  day_le : date.day ≤ daysIn (isLeap date.year) date.month

/-- **The date that falls on a day**, counted from the first of January 1970. -/
inductive FallsOn : Int → Date → Prop
  | epoch : FallsOn 0 ⟨1970, 1, 1⟩
  | forward {days : Int} {date : Date} (h : FallsOn days date) : FallsOn (days + 1) date.next
  | back {days : Int} {date : Date} (hvalid : date.IsValid) (h : FallsOn (days + 1) date.next) :
      FallsOn days date

variable {date date' : Date} {days era : Int} {year day : Nat}

/-- The day after is in the same month, or the first of a month, or the first of a year. -/
theorem next_cases (h : date.IsValid) :
    (date.day < daysIn (isLeap date.year) date.month ∧
      date.next = ⟨date.year, date.month, date.day + 1⟩) ∨
    (date.day = daysIn (isLeap date.year) date.month ∧ date.month < 12 ∧
      date.next = ⟨date.year, date.month + 1, 1⟩) ∨
    (date.day = daysIn (isLeap date.year) date.month ∧ date.month = 12 ∧
      date.next = ⟨date.year + 1, 1, 1⟩) := by
  have hlast := h.day_le
  have htwelve := h.month_le
  rw [next]
  by_cases hday : date.day < daysIn (isLeap date.year) date.month
  · exact Or.inl ⟨hday, if_pos hday⟩
  · rw [if_neg hday]
    by_cases hmonth : date.month < 12
    · exact Or.inr (Or.inl ⟨by omega, hmonth, if_pos hmonth⟩)
    · exact Or.inr (Or.inr ⟨by omega, by omega, if_neg hmonth⟩)

/-- **No two dates have the same day after.** -/
theorem next_inj (h : date.IsValid) (h' : date'.IsValid) (hnext : date.next = date'.next) :
    date = date' := by
  have hpos := h.day_pos
  have hpos' := h'.day_pos
  have hmonth := h.month_pos
  have hmonth' := h'.month_pos
  obtain ⟨y, m, d⟩ := date
  obtain ⟨y', m', d'⟩ := date'
  rcases next_cases h with ⟨hd, heq⟩ | ⟨hd, hm, heq⟩ | ⟨hd, hm, heq⟩ <;>
    rcases next_cases h' with ⟨hd', heq'⟩ | ⟨hd', hm', heq'⟩ | ⟨hd', hm', heq'⟩ <;>
    rw [heq, heq'] at hnext <;> obtain ⟨hy, hmonths, hdays⟩ := Date.mk.inj hnext <;>
    simp only at *
  · obtain rfl : d = d' := by omega
    rw [hy, hmonths]
  -- the first of a month is no day after another of that month
  · omega
  · omega
  · omega
  · obtain rfl : m = m' := by omega
    rw [hd, hd', hy]
  · omega
  · omega
  · omega
  · obtain rfl : y = y' := by omega
    rw [hd, hd', hm, hm']

/-! ## Years from March -/

/-- The first day of a year from March, in its era. -/
def startOfYear (year : Nat) : Nat := 365 * year + year / 4 - year / 100

/-- How long a year from March is: its leap day is its last. -/
def yearLength (year : Nat) : Nat := if isLeap (year + 1) then 366 else 365

/-- The month of a day of a year from March. -/
def monthOf (day : Nat) : Nat :=
  if (5 * day + 2) / 153 < 10 then (5 * day + 2) / 153 + 3 else (5 * day + 2) / 153 - 9

/-- The day of its month of a day of a year from March. -/
def dayOf (day : Nat) : Nat := day - (153 * ((5 * day + 2) / 153) + 2) / 5 + 1

/-- The date of a day of a year from March. -/
def ofMarch (era : Int) (year day : Nat) : Date :=
  ⟨if monthOf day ≤ 2 then year + era * 400 + 1 else year + era * 400, monthOf day, dayOf day⟩

theorem month_ofMarch (era : Int) (year day : Nat) :
    (ofMarch era year day).month = monthOf day := rfl

theorem day_ofMarch (era : Int) (year day : Nat) : (ofMarch era year day).day = dayOf day := rfl

/-- A year from March starts with the first of March. -/
theorem ofMarch_zero (era : Int) (year : Nat) :
    ofMarch era year 0 = ⟨year + era * 400, 3, 1⟩ := rfl

theorem yearLength_pos (year : Nat) : 0 < yearLength year := by
  unfold yearLength
  split <;> decide

theorem isLeap_add_era (era y : Int) : isLeap (y + era * 400) = isLeap y := by
  have h4 : (y + era * 400) % 4 = y % 4 := by omega
  have h100 : (y + era * 400) % 100 = y % 100 := by omega
  have h400 : (y + era * 400) % 400 = y % 400 := by omega
  rw [isLeap, isLeap, h4, h100, h400]

/-- A year is counted in centuries, in fours and beyond. -/
theorem exists_parts (year : Nat) :
    ∃ c q z, year = 100 * c + 4 * q + z ∧ q < 25 ∧ z < 4 :=
  ⟨year / 100, year % 100 / 4, year % 4, by omega, by omega, by omega⟩

variable {c q z : Nat}

theorem startOfYear_parts (hq : q < 25) (hz : z < 4) :
    startOfYear (100 * c + 4 * q + z) = 36524 * c + 1461 * q + 365 * z := by
  have hfours : (100 * c + 4 * q + z) / 4 = 25 * c + q := by omega
  have hcenturies : (100 * c + 4 * q + z) / 100 = c := by omega
  rw [startOfYear, hfours, hcenturies]
  omega

/-- The leap day comes with the last of four years, but for three centuries of an era. -/
theorem yearLength_parts (hq : q < 25) (hz : z < 4) :
    yearLength (100 * c + 4 * q + z) = if z = 3 ∧ (q ≠ 24 ∨ c % 4 = 3) then 366 else 365 := by
  have hleap : isLeap ((100 * c + 4 * q + z : Nat) + 1) = true ↔
      z = 3 ∧ (q ≠ 24 ∨ c % 4 = 3) := by
    simp only [isLeap, Bool.and_eq_true, Bool.or_eq_true, decide_eq_true_eq, ne_eq]
    omega
  rw [yearLength, ite_cond_congr (propext hleap)]

theorem startOfYear_succ (hyear : year < 399) :
    startOfYear (year + 1) = startOfYear year + yearLength year := by
  obtain ⟨c, q, z, rfl, hq, hz⟩ := exists_parts year
  rw [startOfYear_parts hq hz, yearLength_parts hq hz]
  by_cases hthree : z = 3
  · by_cases hcentury : q = 24
    · have hnext : 100 * c + 4 * q + z + 1 = 100 * (c + 1) + 4 * 0 + 0 := by omega
      rw [hnext, startOfYear_parts (by decide) (by decide), if_neg (by omega)]
      omega
    · have hnext : 100 * c + 4 * q + z + 1 = 100 * c + 4 * (q + 1) + 0 := by omega
      rw [hnext, startOfYear_parts (by omega) (by decide), if_pos (by omega)]
      omega
  · have hnext : 100 * c + 4 * q + z + 1 = 100 * c + 4 * q + (z + 1) := by omega
    rw [hnext, startOfYear_parts hq (by omega), if_neg (by omega)]
    omega

theorem startOfYear_last : startOfYear 399 + yearLength 399 = 146097 := by decide

theorem yearEnd_le (hyear : year < 400) : startOfYear year + yearLength year ≤ 146097 := by
  obtain ⟨c, q, z, rfl, hq, hz⟩ := exists_parts year
  rw [startOfYear_parts hq hz, yearLength_parts hq hz]
  split <;> omega

/-- **Every day of an era is a day of one of its years.** -/
theorem exists_year {dayOfEra : Nat} (h : dayOfEra < 146097) :
    ∃ year day, year < 400 ∧ day < yearLength year ∧ dayOfEra = startOfYear year + day := by
  induction dayOfEra with
  | zero => exact ⟨0, 0, by decide, by decide, rfl⟩
  | succ dayOfEra ih =>
    obtain ⟨year, day, hyear, hday, heq⟩ := ih (by omega)
    by_cases hmore : day + 1 < yearLength year
    · exact ⟨year, day + 1, hyear, hmore, by omega⟩
    · have hlast := startOfYear_last
      by_cases hend : year = 399
      · subst hend
        omega
      · have hstart := startOfYear_succ (show year < 399 by omega)
        exact ⟨year + 1, 0, by omega, yearLength_pos _, by omega⟩

/-- **The year of a day of an era**: what is taken off and added evens out the leap days. -/
theorem yearOfEra_eq (hyear : year < 400) (hday : day < yearLength year) :
    (startOfYear year + day - (startOfYear year + day) / 1460 +
      (startOfYear year + day) / 36524 - (startOfYear year + day) / 146096) / 365 = year := by
  obtain ⟨c, q, z, rfl, hq, hz⟩ := exists_parts year
  rw [yearLength_parts hq hz] at hday
  rw [startOfYear_parts hq hz]
  obtain ⟨n, hn⟩ : ∃ n, n = 36524 * c + 1461 * q + 365 * z + day := ⟨_, rfl⟩
  rw [← hn]
  have hfit : day < 365 ∨ day = 365 ∧ z = 3 ∧ (q ≠ 24 ∨ c = 3) := by
    split at hday <;> omega
  -- the last day of an era would be in a fifth century, and is not counted as such
  have hcenturies : n / 36524 = c ∧ n / 146096 = 0 ∨ n / 36524 = 4 ∧ n / 146096 = 1 ∧ c = 3 := by
    by_cases hlast : n = 146096
    · subst hlast
      omega
    · have hbelow : 1461 * q + 365 * z + day < 36524 := by
        rcases hfit with hfit | ⟨hfit, hz, hq⟩
        · omega
        · rcases hq with hq | hq <;> omega
      omega
  have hfours : n / 1460 = 25 * c + q + (q + 24 * c + 365 * z + day) / 1460 := by omega
  have hone : (q + 24 * c + 365 * z + day) / 1460 ≤ 1 := by omega
  omega

/-- **The date that is computed** is that of the day of the year from March. -/
theorem ofDays_eq (hyear : year < 400) (hday : day < yearLength year)
    (hdays : days + 719468 = era * 146097 + (startOfYear year + day : Nat)) :
    ofDays days = ofMarch era year day := by
  have hend := yearEnd_le hyear
  have hfdiv : (days + 719468).fdiv 146097 = era := by
    rw [Int.fdiv_eq_ediv_of_nonneg _ (by decide), hdays]
    omega
  have hrest : (days + 719468 - era * 146097).toNat = startOfYear year + day := by omega
  have hyearOfEra := yearOfEra_eq hyear hday
  have hdayOfYear : startOfYear year + day - (365 * year + year / 4 - year / 100) = day :=
    Nat.add_sub_cancel_left ..
  unfold ofDays
  simp only [hfdiv, hrest, hyearOfEra, hdayOfYear]
  rfl

/-- Every day is a day of a year from March. -/
theorem exists_ofDays_eq (days : Int) : ∃ era year day, year < 400 ∧ day < yearLength year ∧
    days + 719468 = era * 146097 + (startOfYear year + day : Nat) := by
  have hera : ((days + 719468) % 146097).toNat < 146097 := by omega
  obtain ⟨year, day, hyear, hday, heq⟩ := exists_year hera
  exact ⟨(days + 719468) / 146097, year, day, hyear, hday, by omega⟩

/-! ## Months from March -/

/-- Only February knows of leap days. -/
theorem daysIn_eq {month : Nat} (h : month ≠ 2) (leap leap' : Bool) :
    daysIn leap month = daysIn leap' month := by
  unfold daysIn
  split <;> first | rfl | exact absurd rfl h

/-- **One day after another**, month by month, up to the last of February. -/
theorem month_or_next (leap : Bool) : ∀ day < 364 + leap.toNat,
    if dayOf day < daysIn leap (monthOf day) then
      monthOf (day + 1) = monthOf day ∧ dayOf (day + 1) = dayOf day + 1
    else monthOf day ≠ 2 ∧ dayOf (day + 1) = 1 ∧
      monthOf (day + 1) = if monthOf day < 12 then monthOf day + 1 else 1 := by
  cases leap <;> decide +kernel

theorem month_last (leap : Bool) :
    monthOf (364 + leap.toNat) = 2 ∧ dayOf (364 + leap.toNat) = daysIn leap 2 := by
  cases leap <;> decide

theorem month_bounds (leap : Bool) : ∀ day < 365 + leap.toNat,
    1 ≤ monthOf day ∧ monthOf day ≤ 12 ∧ 1 ≤ dayOf day ∧
      dayOf day ≤ daysIn leap (monthOf day) := by
  cases leap <;> decide +kernel

/-- The leap day of a year from March is that of the year after. -/
theorem yearLength_eq (year : Nat) : yearLength year = 365 + (isLeap (year + 1)).toNat := by
  unfold yearLength
  split <;> simp_all

theorem daysIn_ofMarch (era : Int) (year day : Nat) :
    daysIn (isLeap (ofMarch era year day).year) (monthOf day) =
      daysIn (isLeap (year + 1)) (monthOf day) := by
  by_cases h : monthOf day ≤ 2
  · have hyear : (ofMarch era year day).year = year + 1 + era * 400 := by
      simp only [ofMarch, if_pos h]
      omega
    rw [hyear, isLeap_add_era]
  · exact daysIn_eq (by omega) _ _

theorem isValid_ofMarch (era : Int) (hday : day < yearLength year) :
    (ofMarch era year day).IsValid := by
  rw [yearLength_eq] at hday
  obtain ⟨hpos, hle, hfirst, hlast⟩ := month_bounds _ day hday
  exact ⟨hpos, hle, hfirst, Nat.le_trans hlast (Nat.le_of_eq (daysIn_ofMarch era year day).symm)⟩

/-- **The day after** in a year from March. -/
theorem next_ofMarch (era : Int) (hday : day + 1 < yearLength year) :
    (ofMarch era year day).next = ofMarch era year (day + 1) := by
  rw [yearLength_eq] at hday
  have hmonth := month_or_next (isLeap (year + 1)) day (by omega)
  rw [next, month_ofMarch, day_ofMarch, daysIn_ofMarch]
  split at hmonth
  next hmore =>
    obtain ⟨hsame, hnext⟩ := hmonth
    rw [if_pos hmore]
    simp only [ofMarch, hsame, hnext]
  next hmore =>
    obtain ⟨htwo, hfirst, hnext⟩ := hmonth
    rw [if_neg hmore]
    by_cases htwelve : monthOf day < 12
    · have hhalf : monthOf day + 1 ≤ 2 ↔ monthOf day ≤ 2 := by omega
      rw [if_pos htwelve] at hnext ⊢
      simp only [ofMarch, hfirst, hnext, hhalf]
    · have hautumn : ¬ monthOf day ≤ 2 := by omega
      rw [if_neg htwelve] at hnext ⊢
      simp [ofMarch, hfirst, hnext, hautumn]

/-- **The day after the last** of a year from March is the first of the next one. -/
theorem next_ofMarch_last (era : Int) (hday : day + 1 = yearLength year) :
    (ofMarch era year day).next = ⟨year + 1 + era * 400, 3, 1⟩ := by
  rw [yearLength_eq] at hday
  obtain rfl : day = 364 + (isLeap (year + 1)).toNat := by omega
  obtain ⟨hmonth, hlast⟩ := month_last (isLeap (year + 1))
  rw [next, month_ofMarch, day_ofMarch, daysIn_ofMarch, hmonth, hlast,
    if_neg (Nat.lt_irrefl _), if_pos (by decide)]
  simp only [ofMarch, hmonth, Nat.le_refl, if_true, Date.mk.injEq, and_true]
  omega

/-! ## Days and their dates -/

theorem isValid_ofDays (days : Int) : (ofDays days).IsValid := by
  obtain ⟨era, year, day, hyear, hday, hdays⟩ := exists_ofDays_eq days
  rw [ofDays_eq hyear hday hdays]
  exact isValid_ofMarch era hday

/-- **The date of the next day is the day after.** -/
theorem ofDays_succ (days : Int) : ofDays (days + 1) = (ofDays days).next := by
  obtain ⟨era, year, day, hyear, hday, hdays⟩ := exists_ofDays_eq days
  rw [ofDays_eq hyear hday hdays]
  by_cases hmore : day + 1 < yearLength year
  · rw [next_ofMarch era hmore]
    exact ofDays_eq hyear hmore (by omega)
  · rw [next_ofMarch_last era (by omega)]
    by_cases hend : year = 399
    · subst hend
      have hlast := startOfYear_last
      have hstart : startOfYear 0 = 0 := rfl
      have hnext : days + 1 + 719468 = (era + 1) * 146097 + (startOfYear 0 + 0 : Nat) := by omega
      rw [ofDays_eq (by decide) (yearLength_pos 0) hnext, ofMarch_zero, Date.mk.injEq]
      exact ⟨by omega, rfl, rfl⟩
    · have hstart := startOfYear_succ (show year < 399 by omega)
      have hnext : days + 1 + 719468 = era * 146097 + (startOfYear (year + 1) + 0 : Nat) := by omega
      rw [ofDays_eq (by omega) (yearLength_pos _) hnext, ofMarch_zero, Date.mk.injEq]
      exact ⟨by omega, rfl, rfl⟩

/-- **The date that is computed falls on the day**, and no other does. -/
theorem fallsOn_iff : FallsOn days date ↔ date = ofDays days := by
  constructor
  · intro h
    induction h with
    | epoch => decide
    | forward _ ih => rw [ofDays_succ, ih]
    | back hvalid _ ih =>
      rw [ofDays_succ] at ih
      exact next_inj hvalid (isValid_ofDays _) ih
  · rintro rfl
    induction days using Int.induction_on with
    | zero => exact .epoch
    | succ n ih =>
      rw [ofDays_succ]
      exact ih.forward
    | pred n ih =>
      refine .back (isValid_ofDays _) ?_
      rwa [← ofDays_succ, Int.sub_add_cancel]

/-- Dates in the order of the calendar. -/
def rank (date : Date) : Int := (date.year * 12 + date.month) * 31 + date.day

theorem daysIn_le (leap : Bool) (month : Nat) : daysIn leap month ≤ 31 := by
  unfold daysIn
  split <;> first | decide | (split <;> decide)

theorem rank_lt_next (h : date.IsValid) : date.rank < date.next.rank := by
  have hmost := daysIn_le (isLeap date.year) date.month
  have hfirst := h.day_pos
  rcases next_cases h with ⟨-, hnext⟩ | ⟨hday, -, hnext⟩ | ⟨hday, hmonth, hnext⟩ <;>
    rw [hnext] <;> simp only [rank] <;> omega

/-- **A date falls on one day.** -/
theorem FallsOn.days_eq {days' : Int} (h : FallsOn days date) (h' : FallsOn days' date) :
    days = days' := by
  have hmono : StrictMono fun days => (ofDays days).rank := by
    refine strictMono_int_of_lt_succ fun days => ?_
    rw [ofDays_succ]
    exact rank_lt_next (isValid_ofDays days)
  have hdate := (fallsOn_iff.1 h).symm.trans (fallsOn_iff.1 h')
  exact hmono.injective (congrArg rank hdate)

end Date

end Timestamp

end DocStore
