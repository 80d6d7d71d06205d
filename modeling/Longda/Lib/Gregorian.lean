import Mathlib.Data.Int.Notation
import Mathlib.Logic.Equiv.Defs
import Mathlib.Tactic.IntervalCases
import Mathlib.Tactic.NormNum
import Mathlib.Tactic.SplitIfs

/-!
# The Gregorian calendar

The calendar is carried on before and after all years. Years are counted from March, so that the
leap day is the last of its year: then a day is a century, a year of it, a month of that and a day
of the month, and each of them is found by a division. The days are in one-to-one correspondence
with the integers (`dayCountEquiv`), and the next day is the next integer (`dayCount_next`).
-/

namespace Lib

def Leap (year : ℤ) : Prop := 4 ∣ year ∧ (¬100 ∣ year ∨ 400 ∣ year)

instance (year : ℤ) : Decidable (Leap year) := inferInstanceAs (Decidable (_ ∧ _))

def daysInMonth (year month : ℤ) : ℤ :=
  if month = 2 then if Leap year then 29 else 28
  else if month = 4 ∨ month = 6 ∨ month = 9 ∨ month = 11 then 30
  else 31

theorem le_daysInMonth (year month : ℤ) : 28 ≤ daysInMonth year month := by
  unfold daysInMonth
  split_ifs <;> omega

theorem daysInMonth_le (year month : ℤ) : daysInMonth year month ≤ 31 := by
  unfold daysInMonth
  split_ifs <;> omega

/-- A day of the calendar. -/
@[ext]
structure Date where
  year : ℤ
  month : ℤ
  day : ℤ
  month_pos : 1 ≤ month
  month_le : month ≤ 12
  day_pos : 1 ≤ day
  day_le : day ≤ daysInMonth year month

namespace Date

variable (d : Date)

/-- The years that begin in March. -/
def marchYear : ℤ := if d.month ≤ 2 then d.year - 1 else d.year

/-- The months from March on. -/
def marchMonth : ℤ := if d.month ≤ 2 then d.month + 9 else d.month - 3

/-- The days of the year before the day. -/
def dayOfMarchYear : ℤ := (153 * d.marchMonth + 2) / 5 + d.day - 1

/-- The days from 1 March of year 0 on. -/
def dayCount : ℤ :=
  365 * d.marchYear + d.marchYear / 4 - d.marchYear / 100 + d.marchYear / 400 + d.dayOfMarchYear

/-! ## What the days are -/

theorem marchMonth_nonneg : 0 ≤ d.marchMonth := by
  have := d.month_pos
  unfold marchMonth
  split_ifs <;> omega

theorem marchMonth_le : d.marchMonth ≤ 11 := by
  have := d.month_le
  unfold marchMonth
  split_ifs <;> omega

theorem day_le_31 : d.day ≤ 31 := d.day_le.trans (daysInMonth_le _ _)

/-- The months that have a 31st. -/
theorem marchMonth_of_day_31 (h : d.day = 31) : d.marchMonth = 0 ∨ d.marchMonth = 2
    ∨ d.marchMonth = 4 ∨ d.marchMonth = 5 ∨ d.marchMonth = 7 ∨ d.marchMonth = 9
    ∨ d.marchMonth = 10 := by
  have h1 := d.month_pos
  have h12 := d.month_le
  have hd := d.day_le
  rw [h] at hd
  unfold daysInMonth at hd
  unfold marchMonth
  split_ifs at hd ⊢ <;> omega

theorem dayOfMarchYear_nonneg : 0 ≤ d.dayOfMarchYear := by
  have := d.marchMonth_nonneg
  have := d.day_pos
  unfold dayOfMarchYear
  omega

/-- February is the last month of the year. -/
theorem february (h : d.marchMonth = 11) : d.day ≤ 28 ∨ d.day = 29 ∧ Leap (d.marchYear + 1) := by
  have hd := d.day_le
  have h12 := d.month_le
  unfold marchMonth at h
  unfold marchYear
  split_ifs at h ⊢
  · have hm : d.month = 2 := by omega
    rw [hm] at hd
    unfold daysInMonth at hd
    rw [if_pos rfl] at hd
    rw [Int.sub_add_cancel]
    split_ifs at hd with hl
    · exact (Int.lt_or_le 28 d.day).symm.imp_right fun _ => ⟨by omega, hl⟩
    · exact .inl hd
  · omega

theorem dayOfMarchYear_le : d.dayOfMarchYear ≤ 365 := by
  have h0 := d.marchMonth_nonneg
  have h11 := d.marchMonth_le
  have h31 := d.day_le_31
  unfold dayOfMarchYear
  by_cases h : d.marchMonth = 11
  · rcases d.february h with hd | ⟨hd, -⟩ <;> omega
  · omega

theorem leap_of_dayOfMarchYear (h : d.dayOfMarchYear = 365) : Leap (d.marchYear + 1) := by
  have h0 := d.marchMonth_nonneg
  have h11 := d.marchMonth_le
  have h31 := d.day_le_31
  unfold dayOfMarchYear at h
  have hm : d.marchMonth = 11 := by omega
  rcases d.february hm with hd | ⟨-, hl⟩
  · omega
  · exact hl

theorem month_eq : d.month = d.marchMonth + 3 - 12 * (d.marchMonth / 10) := by
  have := d.month_pos
  have := d.month_le
  unfold marchMonth
  split_ifs <;> omega

theorem year_eq : d.year = d.marchYear + d.marchMonth / 10 := by
  have := d.month_pos
  have := d.month_le
  unfold marchMonth marchYear
  split_ifs <;> omega

end Date

/-! ## The divisions -/

section Divisions

variable {b r e m day : ℤ}

/-- The days before the centuries, the years and the day of the year. -/
theorem century_div (hr : 0 ≤ r) (hr' : r < 100) (he : 0 ≤ e) (he' : e ≤ 365)
    (hl : e = 365 → r % 4 = 3 ∧ (r ≠ 99 ∨ b % 4 = 3)) :
    (4 * (36524 * b + b / 4 + (365 * r + r / 4 + e)) + 3) / 146097 = b := by
  by_cases h : e = 365
  · have := hl h
    omega
  · omega

theorem year_div (he : 0 ≤ e) (he' : e ≤ 365) (hl : e = 365 → r % 4 = 3) :
    (4 * (365 * r + r / 4 + e) + 3) / 1461 = r := by
  by_cases h : e = 365
  · have := hl h
    omega
  · omega

theorem month_div (hd : 1 ≤ day) (hd' : day ≤ 31)
    (h31 : day = 31 → m = 0 ∨ m = 2 ∨ m = 4 ∨ m = 5 ∨ m = 7 ∨ m = 9 ∨ m = 10) :
    (5 * ((153 * m + 2) / 5 + day - 1) + 2) / 153 = m := by
  omega

theorem leap_century (hr : 0 ≤ r) (hr' : r < 100) :
    Leap (100 * b + r + 1) ↔ r % 4 = 3 ∧ (r ≠ 99 ∨ b % 4 = 3) := by
  unfold Leap
  omega

end Divisions


/-! ## Days and integers -/

namespace Date

/-- The day with so many days from 1 March of year 0 on before it. -/
def century (n : ℤ) : ℤ := (4 * n + 3) / 146097

def dayOfCentury (n : ℤ) : ℤ := n - century n * 146097 / 4

def yearOfCentury (n : ℤ) : ℤ := (4 * dayOfCentury n + 3) / 1461

def dayOfYear (n : ℤ) : ℤ := dayOfCentury n - 1461 * yearOfCentury n / 4

def monthOfYear (n : ℤ) : ℤ := (5 * dayOfYear n + 2) / 153

variable (n : ℤ) (d : Date)

theorem dayOfCentury_eq : dayOfCentury n = n - (36524 * century n + century n / 4) := by
  unfold dayOfCentury
  generalize century n = b
  omega

theorem dayOfCentury_bounds : 0 ≤ dayOfCentury n ∧ dayOfCentury n ≤ 36524
    ∧ (dayOfCentury n = 36524 → century n % 4 = 3) := by
  have hb : 146097 * century n ≤ 4 * n + 3 ∧ 4 * n + 3 < 146097 * century n + 146097 := by
    unfold century
    omega
  rw [dayOfCentury_eq]
  generalize century n = b at hb ⊢
  omega

theorem yearOfCentury_bounds : 0 ≤ yearOfCentury n ∧ yearOfCentury n < 100 := by
  have := dayOfCentury_bounds n
  unfold yearOfCentury
  omega

theorem dayOfYear_bounds : 0 ≤ dayOfYear n ∧ dayOfYear n ≤ 365
    ∧ (dayOfYear n = 365 → yearOfCentury n % 4 = 3
      ∧ (yearOfCentury n ≠ 99 ∨ century n % 4 = 3)) := by
  have hc := dayOfCentury_bounds n
  have hr : 1461 * yearOfCentury n ≤ 4 * dayOfCentury n + 3
      ∧ 4 * dayOfCentury n + 3 < 1461 * yearOfCentury n + 1461 := by
    unfold yearOfCentury
    omega
  have hquarter : 1461 * yearOfCentury n / 4 = 365 * yearOfCentury n + yearOfCentury n / 4 := by
    omega
  unfold dayOfYear
  rw [hquarter]
  omega

theorem monthOfYear_bounds : 0 ≤ monthOfYear n ∧ monthOfYear n ≤ 11 := by
  have := dayOfYear_bounds n
  unfold monthOfYear
  omega

def ofDayCount : Date where
  year := 100 * century n + yearOfCentury n + monthOfYear n / 10
  month := monthOfYear n + 3 - 12 * (monthOfYear n / 10)
  day := dayOfYear n - (153 * monthOfYear n + 2) / 5 + 1
  month_pos := by
    have := monthOfYear_bounds n
    omega
  month_le := by
    have := monthOfYear_bounds n
    omega
  day_pos := by
    unfold monthOfYear
    omega
  day_le := by
    obtain ⟨hr, hr'⟩ := yearOfCentury_bounds n
    obtain ⟨he, he', hl⟩ := dayOfYear_bounds n
    have hm := monthOfYear_bounds n
    have hdiv : monthOfYear n = (5 * dayOfYear n + 2) / 153 := rfl
    unfold daysInMonth
    split_ifs with h2 hleap h30
    · omega
    · -- the 29th would be the last day of its year
      have h11 : monthOfYear n / 10 = 1 := by omega
      rw [h11, leap_century hr hr'] at hleap
      have hne : dayOfYear n ≠ 365 := fun h => hleap (hl h)
      omega
    · omega
    · omega

theorem dayCount_eq_century {b r : ℤ} (h : d.marchYear = 100 * b + r) (hr : 0 ≤ r)
    (hr' : r < 100) :
    d.dayCount = 36524 * b + b / 4 + (365 * r + r / 4 + d.dayOfMarchYear) := by
  unfold dayCount
  rw [h]
  omega

theorem dayCount_ofDayCount : (ofDayCount n).dayCount = n := by
  obtain ⟨hr, hr'⟩ := yearOfCentury_bounds n
  have hm := monthOfYear_bounds n
  have hyear : (ofDayCount n).marchYear = 100 * century n + yearOfCentury n := by
    unfold marchYear
    simp only [ofDayCount]
    split_ifs <;> omega
  have hmonth : (ofDayCount n).marchMonth = monthOfYear n := by
    unfold marchMonth
    simp only [ofDayCount]
    split_ifs <;> omega
  have hday : (ofDayCount n).dayOfMarchYear = dayOfYear n := by
    unfold dayOfMarchYear
    rw [hmonth]
    simp only [ofDayCount]
    omega
  rw [dayCount_eq_century _ hyear hr hr', hday]
  have hc : dayOfYear n = dayOfCentury n - 1461 * yearOfCentury n / 4 := rfl
  have hn : dayOfCentury n = n - century n * 146097 / 4 := rfl
  omega

theorem ofDayCount_dayCount : ofDayCount d.dayCount = d := by
  obtain ⟨b, r, hyear, hr, hr'⟩ : ∃ b r, d.marchYear = 100 * b + r ∧ 0 ≤ r ∧ r < 100 :=
    ⟨d.marchYear / 100, d.marchYear % 100, by omega, by omega, by omega⟩
  have he := d.dayOfMarchYear_nonneg
  have he' := d.dayOfMarchYear_le
  have hl : d.dayOfMarchYear = 365 → r % 4 = 3 ∧ (r ≠ 99 ∨ b % 4 = 3) := by
    intro h
    have hleap := d.leap_of_dayOfMarchYear h
    rw [hyear] at hleap
    exact (leap_century hr hr').1 hleap
  have hcount := d.dayCount_eq_century hyear hr hr'
  have hb : century d.dayCount = b := by
    unfold century
    rw [hcount]
    exact century_div hr hr' he he' hl
  have hc : dayOfCentury d.dayCount = 365 * r + r / 4 + d.dayOfMarchYear := by
    unfold dayOfCentury
    rw [hb, hcount]
    omega
  have hr₂ : yearOfCentury d.dayCount = r := by
    unfold yearOfCentury
    rw [hc]
    exact year_div he he' fun h => (hl h).1
  have he₂ : dayOfYear d.dayCount = d.dayOfMarchYear := by
    unfold dayOfYear
    rw [hc, hr₂]
    omega
  have hm : monthOfYear d.dayCount = d.marchMonth := by
    unfold monthOfYear
    rw [he₂]
    exact month_div d.day_pos d.day_le_31 d.marchMonth_of_day_31
  ext
  · show 100 * century d.dayCount + yearOfCentury d.dayCount + monthOfYear d.dayCount / 10 = d.year
    rw [hb, hr₂, hm, d.year_eq, hyear]
  · show monthOfYear d.dayCount + 3 - 12 * (monthOfYear d.dayCount / 10) = d.month
    rw [hm, d.month_eq]
  · show dayOfYear d.dayCount - (153 * monthOfYear d.dayCount + 2) / 5 + 1 = d.day
    rw [he₂, hm]
    unfold dayOfMarchYear
    omega

def dayCountEquiv : Date ≃ ℤ where
  toFun := dayCount
  invFun := ofDayCount
  left_inv := fun d => ofDayCount_dayCount d
  right_inv := fun n => dayCount_ofDayCount n

/-! ## The next day -/

def next : Date :=
  if h : d.day < daysInMonth d.year d.month then
    { d with day := d.day + 1, day_pos := by have := d.day_pos; omega, day_le := h }
  else if hm : d.month < 12 then
    { year := d.year
      month := d.month + 1
      day := 1
      month_pos := by have := d.month_pos; omega
      month_le := by omega
      day_pos := Int.le_refl 1
      day_le := by unfold daysInMonth; split_ifs <;> omega }
  else
    { year := d.year + 1
      month := 1
      day := 1
      month_pos := Int.le_refl 1
      month_le := by omega
      day_pos := Int.le_refl 1
      day_le := by unfold daysInMonth; split_ifs <;> omega }

/-- The first of a month comes after the last day of the month before. -/
theorem dayCount_next : d.next.dayCount = d.dayCount + 1 := by
  obtain ⟨year, month, day, h1, h12, hday, hle⟩ := d
  unfold next
  dsimp only
  split_ifs with h hm
  · unfold dayCount dayOfMarchYear marchYear marchMonth
    dsimp only
    omega
  · have hlast : day = daysInMonth year month := by omega
    unfold daysInMonth at hlast
    unfold dayCount dayOfMarchYear marchYear marchMonth
    dsimp only
    by_cases h2 : month = 2
    · -- the year ends, and is a day longer before a leap year
      subst h2
      rw [if_pos rfl] at hlast
      unfold Leap at hlast
      split_ifs at hlast ⊢ <;> omega
    · rw [if_neg h2] at hlast
      have hyear : (if month + 1 ≤ 2 then year - 1 else year)
          = if month ≤ 2 then year - 1 else year := by
        split_ifs <;> omega
      have hdays : (153 * (if month + 1 ≤ 2 then month + 1 + 9 else month + 1 - 3) + 2) / 5 + 1 - 1
          = (153 * (if month ≤ 2 then month + 9 else month - 3) + 2) / 5 + day - 1 + 1 := by
        interval_cases month <;> norm_num at hlast ⊢ <;> omega
      rw [hyear, hdays]
      exact (Int.add_assoc ..).symm
  · have hlast : day = daysInMonth year month := by omega
    obtain rfl : month = 12 := by omega
    obtain rfl : day = 31 := hlast
    unfold dayCount dayOfMarchYear marchYear marchMonth
    norm_num
    omega

/-- January and February are the last months from March on. -/
theorem marchMonth_div : d.marchMonth / 10 = if 306 ≤ d.dayOfMarchYear then 1 else 0 := by
  have hm := d.marchMonth_nonneg
  have hm' := d.marchMonth_le
  have hd := d.day_pos
  have hd' := d.day_le_31
  unfold dayOfMarchYear
  split_ifs <;> omega

/-- Year 0 begins 60 days before 1 March of it. -/
theorem year_nonneg_iff : 0 ≤ d.year ↔ -60 ≤ d.dayCount := by
  have h0 := d.dayOfMarchYear_nonneg
  have h1 := d.dayOfMarchYear_le
  rw [d.year_eq, d.marchMonth_div]
  unfold dayCount
  split_ifs <;> omega

theorem year_le_iff : d.year ≤ 9999 ↔ d.dayCount ≤ 3652364 := by
  have h0 := d.dayOfMarchYear_nonneg
  have h1 := d.dayOfMarchYear_le
  rw [d.year_eq, d.marchMonth_div]
  unfold dayCount
  split_ifs <;> omega

end Date

end Lib
