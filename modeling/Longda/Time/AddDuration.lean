import Longda.Time.DayLoop
import Longda.Time.DurationText

/-!
# Durations that are added

`addDurationDateTime` carries with quotients that are truncated and drops the milliseconds, where
the sum of the schema keeps them and carries with quotients that are not (`schemaSum`). The two are
the same if and only if what is truncated and counted short on the way makes no difference
(`addDuration_iff`).
-/

namespace Longda

open Lib

namespace DateTime

/-- The months and the years. -/
def addMonth (sYear sMonth : ℤ) (durT : Tm) : Option (ℤ × ℤ) := do
  let tmpMonth ← ((sMonth : CInt) + (durT.tmMon : CInt)).get?
  let eMonth ← (((tmpMonth : CInt) - 1) % 12 + 1).get?
  let carryMonth ← (((tmpMonth : CInt) - 1) / 12).get?
  let eYear ← ((sYear : CInt) + (durT.tmYear : CInt) + (carryMonth : CInt)).get?
  some (eYear, eMonth)

/-- The seconds, the minutes and the hours, with the days to carry last. -/
def addTime (sHour sMin sSec : ℤ) (durT : Tm) : Option (ℤ × ℤ × ℤ × ℤ) := do
  let tmpSec ← ((sSec : CInt) + (durT.tmSec : CInt)).get?
  let eSec ← ((tmpSec : CInt) % 60).get?
  let carrySec ← ((tmpSec : CInt) / 60).get?
  let tmpMin ← ((sMin : CInt) + (durT.tmMin : CInt) + (carrySec : CInt)).get?
  let eMin ← ((tmpMin : CInt) % 60).get?
  let carryMin ← ((tmpMin : CInt) / 60).get?
  let tmpHour ← ((sHour : CInt) + (durT.tmHour : CInt) + (carryMin : CInt)).get?
  let eHour ← ((tmpHour : CInt) % 24).get?
  let carryHr ← ((tmpHour : CInt) / 24).get?
  some (eHour, eMin, eSec, carryHr)

def addDurationDateTime (turns : ℕ) (t : DateTime) (xmlDuration : Str) : Option DateTime := do
  let (sYear, sMonth, sDay) ← ymd? t.mDate
  let (hour, minute, second) := getHMS t.mTime
  let sHour ← hour.get?
  let sMin ← minute.get?
  let sSec ← second.get?
  let durT ← parseDuration xmlDuration
  let (eYear, eMonth) ← addMonth sYear sMonth durT
  let (eHour, eMin, eSec, carryHr) ← addTime sHour sMin sSec durT
  let maxDay ← maxDayInMonthFor eYear eMonth
  let tmpDay := if sDay > maxDay then maxDay else if sDay < 1 then 1 else sDay
  let eDay ← ((tmpDay : CInt) + (durT.tmMday : CInt) + (carryHr : CInt)).get?
  let (eYear, eMonth, eDay) ← dayLoop turns (eYear, eMonth, eDay)
  let mDate ← (julianDate eYear eMonth eDay).get?
  let mTime ← (makeHMS eHour eMin eSec 0).get?
  some ⟨mDate, mTime⟩

/-! ## What is to be added -/

/-- The sum of a time and a duration. The months are carried into the years and the day is moved to
the end of a shorter month, before the clock is carried into the days and those are added. -/
def schemaSum (t : DateTime) (dur : Tm) : DateTime :=
  let seconds := t.mTime / 1000 % 60 + dur.tmSec
  let minutes := t.mTime / 1000 / 60 % 60 + dur.tmMin + seconds / 60
  let hours := t.mTime / 1000 / 3600 + dur.tmHour + minutes / 60
  let day := t.date.addMonths (12 * dur.tmYear + dur.tmMon)
  ⟨day.dayCount + dur.tmMday + hours / 24 + 1721120,
    1000 * (3600 * (hours % 24) + 60 * (minutes % 60) + seconds % 60) + t.mTime % 1000⟩

/-! ## The sums -/

section Sums

variable (t : DateTime) (dur : Tm)

def secondSum : ℤ := t.mTime / 1000 % 60 + dur.tmSec

def minuteSum : ℤ := t.mTime / 1000 / 60 % 60 + dur.tmMin + (secondSum t dur).tdiv 60

def hourSum : ℤ := t.mTime / 1000 / 3600 + dur.tmHour + (minuteSum t dur).tdiv 60

/-- The seconds of the day that are left by quotients that are truncated. -/
def clockLeft : ℤ :=
  3600 * (hourSum t dur).tmod 24 + 60 * (minuteSum t dur).tmod 60 + (secondSum t dur).tmod 60

def monthSum : ℤ := t.date.month + dur.tmMon

/-- The year that the months are carried into. -/
def carriedYear : ℤ := t.date.year + dur.tmYear + (monthSum t dur - 1).tdiv 12

/-- The month, counted from January of year 0. -/
def monthReached : ℤ := t.date.monthIndex + (12 * dur.tmYear + dur.tmMon)

/-- The day, or the last one of the month as it is counted. -/
def clampedDay : ℤ := clamp (counted (carriedYear t dur) (monthReached t dur)) t.date.day

def daySum : ℤ := clampedDay t dur + dur.tmMday + (hourSum t dur).tdiv 24

/-- The sums are `int`s. -/
structure SumsFit : Prop where
  month : InInt (monthSum t dur)
  years : InInt (t.date.year + dur.tmYear)
  year : InInt (carriedYear t dur)
  second : InInt (secondSum t dur)
  minutes : InInt (t.mTime / 1000 / 60 % 60 + dur.tmMin)
  minute : InInt (minuteSum t dur)
  hours : InInt (t.mTime / 1000 / 3600 + dur.tmHour)
  hour : InInt (hourSum t dur)
  days : InInt (clampedDay t dur + dur.tmMday)
  day : InInt (daySum t dur)

theorem monthReached_eq : monthReached t dur =
    12 * carriedYear t dur + (monthSum t dur - 1).tmod 12 := by
  have h := (tdiv_add_tmod (monthSum t dur - 1) (b := 12) (by omega)).1
  unfold monthReached carriedYear Date.monthIndex
  unfold monthSum at *
  omega

theorem monthReached_bounds : 12 * carriedYear t dur - 11 ≤ monthReached t dur ∧
    monthReached t dur ≤ 12 * carriedYear t dur + 11 := by
  obtain ⟨-, hlt, hgt⟩ := tdiv_add_tmod (monthSum t dur - 1) (b := 12) (by omega)
  rw [monthReached_eq]
  omega

theorem yearOf_monthReached : yearOf (carriedYear t dur) (monthReached t dur) =
    carriedYear t dur := by
  obtain ⟨-, hlt, hgt⟩ := tdiv_add_tmod (monthSum t dur - 1) (b := 12) (by omega)
  rw [monthReached_eq]
  unfold yearOf
  split_ifs <;> omega

theorem monthOf_monthReached : monthOf (carriedYear t dur) (monthReached t dur) =
    (monthSum t dur - 1).tmod 12 + 1 := by
  obtain ⟨-, hlt, hgt⟩ := tdiv_add_tmod (monthSum t dur - 1) (b := 12) (by omega)
  rw [monthReached_eq]
  unfold monthOf
  split_ifs <;> omega

/-- The numbers of a duration that was read. -/
structure Bounded : Prop where
  year : InInt dur.tmYear
  mon : -2 ^ 31 < dur.tmMon ∧ dur.tmMon < 2 ^ 31
  mday : InInt dur.tmMday
  hour : InInt dur.tmHour
  min : InInt dur.tmMin
  sec : InInt dur.tmSec

variable {t dur}

theorem addMonth_iff {r : ℤ × ℤ} (hyear : InInt t.date.year) (h : Bounded dur) :
    addMonth t.date.year t.date.month dur = some r ↔ InInt (monthSum t dur) ∧
      InInt (t.date.year + dur.tmYear) ∧ InInt (carriedYear t dur) ∧
      r = (yearOf (carriedYear t dur) (monthReached t dur),
        monthOf (carriedYear t dur) (monthReached t dur)) := by
  have h1 := t.date.month_pos
  have h12 := t.date.month_le
  obtain ⟨hsum, hlt, hgt⟩ := tdiv_add_tmod (monthSum t dur - 1) (b := 12) (by omega)
  have hmon := h.mon
  have hyears := h.year
  rw [yearOf_monthReached, monthOf_monthReached]
  simp only [addMonth, Option.bind_eq_bind, Option.bind_eq_some_iff, CInt.get?_eq_some_iff,
    Option.some.injEq]
  constructor
  · rintro ⟨_, ⟨hmonth, rfl⟩, _, ⟨-, rfl⟩, _, ⟨-, rfl⟩, _, ⟨hsums, rfl⟩, rfl⟩
    simp at hmonth hsums
    exact ⟨hmonth.2.2, hsums.1.2.2, hsums.2.2, rfl⟩
  · rintro ⟨hmonth, hsum, hcarried, rfl⟩
    have hdef : monthSum t dur = t.date.month + dur.tmMon := rfl
    have hdef' : carriedYear t dur = t.date.year + dur.tmYear + (monthSum t dur - 1).tdiv 12 := rfl
    unfold InInt at *
    refine ⟨monthSum t dur, ⟨?_, rfl⟩, (monthSum t dur - 1).tmod 12 + 1, ⟨?_, rfl⟩,
      (monthSum t dur - 1).tdiv 12, ⟨?_, rfl⟩, carriedYear t dur, ⟨?_, rfl⟩, rfl⟩
    · simp [InInt]
      omega
    · simp [InInt]
      omega
    · simp [InInt]
      omega
    · simp [InInt]
      omega

theorem addTime_iff {r : ℤ × ℤ × ℤ × ℤ} (htime : 0 ≤ t.mTime) (hlt : t.mTime < MILLIS_PER_DAY)
    (h : Bounded dur) :
    addTime (t.mTime / 1000 / 3600) (t.mTime / 1000 / 60 % 60) (t.mTime / 1000 % 60) dur = some r ↔
      (InInt (secondSum t dur) ∧ InInt (t.mTime / 1000 / 60 % 60 + dur.tmMin) ∧
        InInt (minuteSum t dur) ∧ InInt (t.mTime / 1000 / 3600 + dur.tmHour) ∧
        InInt (hourSum t dur)) ∧
      r = ((hourSum t dur).tmod 24, (minuteSum t dur).tmod 60, (secondSum t dur).tmod 60,
        (hourSum t dur).tdiv 24) := by
  unfold MILLIS_PER_DAY at hlt
  have hS := h.sec
  have hM := h.min
  have hH := h.hour
  have h60 : InInt 60 := by decide
  constructor
  · simp only [addTime, Option.bind_eq_bind, Option.bind_eq_some_iff, CInt.get?_eq_some_iff,
      Option.some.injEq]
    rintro ⟨_, ⟨hsec, rfl⟩, _, ⟨-, rfl⟩, _, ⟨-, rfl⟩, _, ⟨hmin, rfl⟩, _, ⟨-, rfl⟩, _, ⟨-, rfl⟩, _,
      ⟨hhour, rfl⟩, _, ⟨-, rfl⟩, _, ⟨-, rfl⟩, rfl⟩
    simp only [CInt.fits_add, CInt.fits_of, CInt.val_add, CInt.val_of] at hsec hmin hhour
    exact ⟨⟨hsec.2.2, hmin.1.2.2, hmin.2.2, hhour.1.2.2, hhour.2.2⟩, rfl⟩
  · rintro ⟨⟨hsec, hmins, hmin, hhours, hhour⟩, rfl⟩
    have hsec1 : (((t.mTime / 1000 % 60 : ℤ) : CInt) + (dur.tmSec : CInt)).get? =
        some (secondSum t dur) := by
      refine CInt.get?_of_fits ?_
      simp only [CInt.fits_add, CInt.fits_of, CInt.val_of]
      exact ⟨by unfold InInt; omega, hS, hsec⟩
    have hsec2 : ((secondSum t dur : CInt) % 60).get? = some ((secondSum t dur).tmod 60) :=
      CInt.get?_mod_of hsec h60 (by decide)
    have hsec3 : ((secondSum t dur : CInt) / 60).get? = some ((secondSum t dur).tdiv 60) :=
      CInt.get?_div_of hsec h60 (by decide)
    have hmin1 : (((t.mTime / 1000 / 60 % 60 : ℤ) : CInt) + (dur.tmMin : CInt)
        + ((secondSum t dur).tdiv 60 : CInt)).get? = some (minuteSum t dur) := by
      refine CInt.get?_of_fits ?_
      simp only [CInt.fits_add, CInt.fits_of, CInt.val_add, CInt.val_of]
      exact ⟨⟨by unfold InInt; omega, hM, hmins⟩, CInt.inInt_tdiv hsec (by decide), hmin⟩
    have hmin2 : ((minuteSum t dur : CInt) % 60).get? = some ((minuteSum t dur).tmod 60) :=
      CInt.get?_mod_of hmin h60 (by decide)
    have hmin3 : ((minuteSum t dur : CInt) / 60).get? = some ((minuteSum t dur).tdiv 60) :=
      CInt.get?_div_of hmin h60 (by decide)
    have hhour1 : (((t.mTime / 1000 / 3600 : ℤ) : CInt) + (dur.tmHour : CInt)
        + ((minuteSum t dur).tdiv 60 : CInt)).get? = some (hourSum t dur) := by
      refine CInt.get?_of_fits ?_
      simp only [CInt.fits_add, CInt.fits_of, CInt.val_add, CInt.val_of]
      exact ⟨⟨by unfold InInt; omega, hH, hhours⟩, CInt.inInt_tdiv hmin (by decide), hhour⟩
    have hhour2 : ((hourSum t dur : CInt) % 24).get? = some ((hourSum t dur).tmod 24) :=
      CInt.get?_mod_of hhour (by decide) (by decide)
    have hhour3 : ((hourSum t dur : CInt) / 24).get? = some ((hourSum t dur).tdiv 24) :=
      CInt.get?_div_of hhour (by decide) (by decide)
    simp only [addTime, hsec1, hsec2, hsec3, hmin1, hmin2, hmin3, hhour1, hhour2, hhour3,
      Option.bind_eq_bind, Option.bind_some]

theorem DurationText.Fits.bounded {f : DurationText} (h : f.Fits) : Bounded f.tm :=
  ⟨inInt_partVal h.years, partVal_bounds h.months, inInt_partVal h.days, inInt_partVal h.hours,
    inInt_partVal h.minutes, inInt_partVal h.seconds⟩

theorem clampedDay_eq : (if t.date.day > counted (carriedYear t dur) (monthReached t dur) then
    counted (carriedYear t dur) (monthReached t dur)
    else if t.date.day < 1 then 1 else t.date.day) = clampedDay t dur := by
  have hday := t.date.day_pos
  unfold clampedDay clamp
  split_ifs <;> omega

theorem makeHMS_clockLeft : (makeHMS ((hourSum t dur).tmod 24) ((minuteSum t dur).tmod 60)
    ((secondSum t dur).tmod 60) 0).get? = some (1000 * clockLeft t dur) := by
  obtain ⟨-, hhour, hhour'⟩ := tdiv_add_tmod (hourSum t dur) (b := 24) (by omega)
  obtain ⟨-, hmin, hmin'⟩ := tdiv_add_tmod (minuteSum t dur) (b := 60) (by omega)
  obtain ⟨-, hsec, hsec'⟩ := tdiv_add_tmod (secondSum t dur) (b := 60) (by omega)
  exact makeHMS_get? (by omega) (by omega) (by omega) (by omega) (by omega) (by omega)

/-- What is made of the time and of a duration that is read. -/
theorem addDurationDateTime_iff {f : DurationText} {turns : ℕ} {u : DateTime} (h : t.InRange)
    (hlt : t.mTime < MILLIS_PER_DAY) : addDurationDateTime turns t f.text = some u ↔
      f.Fits ∧ SumsFit t f.tm ∧ u.mTime = 1000 * clockLeft t f.tm ∧ ∃ r,
        dayLoop turns (loopState (carriedYear t f.tm) (monthReached t f.tm) (daySum t f.tm)) =
            some r ∧ (julianDate r.1 r.2.1 r.2.2).get? = some u.mDate := by
  obtain ⟨hhour, hminute, hsecond⟩ := getHMS_get? h.time_nonneg h.time_lt
  have hyear := h.year_bounds
  have hyear' : InInt t.date.year := by
    unfold InInt
    omega
  unfold addDurationDateTime
  simp only [h.ymd?_eq, hhour, hminute, hsecond, Option.bind_eq_bind, Option.bind_some,
    Option.bind_eq_some_iff, parseDuration_iff]
  constructor
  · rintro ⟨_, ⟨hfits, rfl⟩, m, hmonth, time, htime, maxDay, hmax, eDay, hday, r, hr, mDate, hdate,
      mTime, hmTime, hu⟩
    obtain ⟨hmonths, hyears, hcarried, rfl⟩ := (addMonth_iff hyear' hfits.bounded).1 hmonth
    obtain ⟨⟨hsec, hmins, hmin, hhours, hhour⟩, rfl⟩ :=
      (addTime_iff h.time_nonneg hlt hfits.bounded).1 htime
    rw [maxDayInMonthFor_month (by rw [yearOf_monthReached]; exact hcarried)] at hmax
    obtain rfl := Option.some.inj hmax
    rw [clampedDay_eq] at hday
    obtain ⟨hdays, rfl⟩ := CInt.get?_eq_some_iff.1 hday
    simp only [CInt.fits_add, CInt.fits_of, CInt.val_add, CInt.val_of] at hdays
    rw [makeHMS_clockLeft] at hmTime
    obtain rfl := Option.some.inj hu
    exact ⟨hfits, ⟨hmonths, hyears, hcarried, hsec, hmins, hmin, hhours, hhour, hdays.1.2.2,
      hdays.2.2⟩, (Option.some.inj hmTime).symm, r, hr, hdate⟩
  · rintro ⟨hfits, hsums, hmTime, r, hr, hdate⟩
    have hmonth := (addMonth_iff hyear' hfits.bounded).2 ⟨hsums.month, hsums.years, hsums.year, rfl⟩
    have htime := (addTime_iff h.time_nonneg hlt hfits.bounded).2
      ⟨⟨hsums.second, hsums.minutes, hsums.minute, hsums.hours, hsums.hour⟩, rfl⟩
    have hcarried : InInt (yearOf (carriedYear t f.tm) (monthReached t f.tm)) := by
      rw [yearOf_monthReached]
      exact hsums.year
    have hmax := maxDayInMonthFor_month hcarried
    refine ⟨_, ⟨hfits, rfl⟩, _, hmonth, _, htime, _, hmax, daySum t f.tm, ?_, r, hr, _, hdate, _,
      makeHMS_clockLeft, ?_⟩
    · have hclamped : InInt (clampedDay t f.tm) := by
        have h31 := t.date.day_le_31
        have h1 := t.date.day_pos
        have hcounted := counted_bounds (carriedYear t f.tm) (monthReached t f.tm)
        unfold InInt clampedDay clamp
        split_ifs <;> omega
      rw [clampedDay_eq]
      refine CInt.get?_of_fits ?_
      simp only [CInt.fits_add, CInt.fits_of, CInt.val_add, CInt.val_of]
      exact ⟨⟨hclamped, hfits.bounded.mday, hsums.days⟩, CInt.inInt_tdiv hsums.hour (by decide),
        hsums.day⟩
    · rw [← hmTime]

/-- The seconds that are added up on the clock. -/
def clockSum (t : DateTime) (dur : Tm) : ℤ := 3600 * (t.mTime / 1000 / 3600 + dur.tmHour)
  + 60 * (t.mTime / 1000 / 60 % 60 + dur.tmMin) + (t.mTime / 1000 % 60 + dur.tmSec)

theorem clockLeft_bounds (t : DateTime) (dur : Tm) :
    86400 * (hourSum t dur).tdiv 24 + clockLeft t dur = clockSum t dur ∧
      -86400 < clockLeft t dur ∧ clockLeft t dur < 86400 := by
  obtain ⟨hh, hhour, hhour'⟩ := tdiv_add_tmod (hourSum t dur) (b := 24) (by omega)
  obtain ⟨hm, hmin, hmin'⟩ := tdiv_add_tmod (minuteSum t dur) (b := 60) (by omega)
  obtain ⟨hs, hsec, hsec'⟩ := tdiv_add_tmod (secondSum t dur) (b := 60) (by omega)
  have hdefh : hourSum t dur = t.mTime / 1000 / 3600 + dur.tmHour + (minuteSum t dur).tdiv 60 := rfl
  have hdefm : minuteSum t dur = t.mTime / 1000 / 60 % 60 + dur.tmMin
    + (secondSum t dur).tdiv 60 := rfl
  have hdefs : secondSum t dur = t.mTime / 1000 % 60 + dur.tmSec := rfl
  unfold clockLeft clockSum
  omega

/-- The quotients of the sum are not truncated. -/
theorem schemaSum_eq : schemaSum t dur =
    ⟨monthStart (monthReached t dur) + clamp (monthLength (monthReached t dur)) t.date.day - 1
      + dur.tmMday + clockSum t dur / 86400 + 1721120,
      1000 * (clockSum t dur % 86400) + t.mTime % 1000⟩ := by
  have hday : (t.date.addMonths (12 * dur.tmYear + dur.tmMon)).dayCount =
      monthStart (monthReached t dur) + clamp (monthLength (monthReached t dur)) t.date.day
        - 1 := by
    rw [Date.dayCount_eq_monthStart, Date.monthIndex_addMonths, Date.day_addMonths]
    rfl
  unfold schemaSum clockSum
  dsimp only
  rw [hday]
  ext
  · dsimp only
    omega
  · dsimp only
    omega

/-- The sum has a time of the day. -/
theorem schemaSum_time : 0 ≤ (schemaSum t dur).mTime ∧
    (schemaSum t dur).mTime < MILLIS_PER_DAY := by
  rw [schemaSum_eq]
  unfold MILLIS_PER_DAY
  dsimp only
  omega

/-- The clock is right where it has no milliseconds and is left with no seconds below zero. -/
theorem mTime_eq_iff : 1000 * clockLeft t dur = (schemaSum t dur).mTime ↔
    t.mTime % 1000 = 0 ∧ 0 ≤ clockLeft t dur := by
  obtain ⟨htotal, hgt, hlt⟩ := clockLeft_bounds t dur
  rw [schemaSum_eq]
  dsimp only
  omega

end Sums

/-! ## Where the sum is right -/

/-- With turns enough the loop ends, and the sum is that of the schema. -/
def AddsRight (t : DateTime) (f : DurationText) : Prop :=
  ∃ turns, ∀ m, turns ≤ m → addDurationDateTime m t f.text = some (schemaSum t f.tm)

/-- The numbers and the sums fit, there are no milliseconds to drop and no seconds below zero on the
clock, and the days that the months on the way are counted short make up for those that the day is
moved by too much. -/
structure Exact (t : DateTime) (f : DurationText) : Prop where
  fits : f.Fits
  sums : SumsFit t f.tm
  millis : t.mTime % 1000 = 0
  clock : 0 ≤ clockLeft t f.tm
  day : (schemaSum t f.tm).date.day ≤
    counted (carriedYear t f.tm) (schemaSum t f.tm).date.monthIndex
  days : along (short (carriedYear t f.tm)) (monthReached t f.tm)
      (schemaSum t f.tm).date.monthIndex =
    clamp (monthLength (monthReached t f.tm)) t.date.day - clampedDay t f.tm

section Right

variable {t : DateTime} {f : DurationText}

/-- The days before a month as the source counts them, from the month reached on. -/
theorem counts_counted (t : DateTime) (dur : Tm) :
    Counts (fun k => monthStart k - along (short (carriedYear t dur)) (monthReached t dur) k)
      (counted (carriedYear t dur)) :=
  counts_monthStart.shorten (short_lt _) _

/-- The day of the month that the schema comes to, where the clock is carried right. -/
theorem schemaSum_days (hclock : 0 ≤ clockLeft t f.tm) :
    monthStart (schemaSum t f.tm).date.monthIndex + (schemaSum t f.tm).date.day =
      monthStart (monthReached t f.tm) + daySum t f.tm
        + (clamp (monthLength (monthReached t f.tm)) t.date.day - clampedDay t f.tm) := by
  have hdate := dayCount_date (schemaSum t f.tm)
  obtain ⟨htotal, -, hlt⟩ := clockLeft_bounds t f.tm
  rw [Date.dayCount_eq_monthStart, schemaSum_eq] at hdate
  rw [schemaSum_eq]
  dsimp only at hdate
  unfold daySum
  omega

theorem reached_start (h : SumsFit t f.tm) :
    Reached (carriedYear t f.tm) (monthReached t f.tm) (daySum t f.tm) :=
  ⟨fun _ => (monthReached_bounds t f.tm).2, fun _ => (monthReached_bounds t f.tm).1, h.day⟩

theorem inPlace_date (u : DateTime) : InPlace monthLength u.date.monthIndex u.date.day :=
  ⟨u.date.day_pos, by rw [Date.monthLength_monthIndex]; exact u.date.day_le⟩

/-- Where the loop comes to the right Julian day, it comes to the day of the calendar. -/
theorem days_of_loop {turns : ℕ} {r : ℤ × ℤ × ℤ} (hsums : SumsFit t f.tm)
    (hclock : 0 ≤ clockLeft t f.tm) (hyear : 0 ≤ (schemaSum t f.tm).date.year)
    (hr : dayLoop turns (loopState (carriedYear t f.tm) (monthReached t f.tm) (daySum t f.tm)) =
      some r)
    (hdate : (julianDate r.1 r.2.1 r.2.2).get? = some (schemaSum t f.tm).mDate) :
    (schemaSum t f.tm).date.day ≤
        counted (carriedYear t f.tm) (schemaSum t f.tm).date.monthIndex ∧
      along (short (carriedYear t f.tm)) (monthReached t f.tm)
          (schemaSum t f.tm).date.monthIndex =
        clamp (monthLength (monthReached t f.tm)) t.date.day - clampedDay t f.tm := by
  have hstart : InInt (yearOf (carriedYear t f.tm) (monthReached t f.tm)) := by
    rw [yearOf_monthReached]
    exact hsums.year
  obtain ⟨k, d, rfl, hplace, htotal⟩ :=
    dayLoop_inPlace (counts_counted t f.tm) hstart (reached_start hsums) hr
  obtain ⟨-, hval⟩ := CInt.get?_eq_some_iff.1 hdate
  have hmonth := monthOf_bounds (carriedYear t f.tm) k
  have hcounted := counted_bounds (carriedYear t f.tm) k
  have hcount := dayCount_date (schemaSum t f.tm)
  have hge := (schemaSum t f.tm).date.year_nonneg_iff.1 hyear
  have hd31 := hplace.2
  unfold loopState at hval
  dsimp only at hval
  rw [julianDate_month_val hmonth.1 hmonth.2 (by omega) (by rw [hval]; omega),
    yearOf_monthOf] at hval
  rw [Date.dayCount_eq_monthStart] at hcount
  obtain ⟨hk, hd⟩ := counts_monthStart.unique (f := (schemaSum t f.tm).date.monthIndex)
    (d := (schemaSum t f.tm).date.day) ⟨hplace.1, hplace.2.trans (counted_le _ _)⟩
    (inPlace_date _) (by omega)
  subst hk hd
  have hdays := schemaSum_days hclock
  rw [along_self] at htotal
  exact ⟨hplace.2, by omega⟩

/-- The loop ends at the day of the calendar where that is right. -/
theorem loop_of_exact (h : Exact t f) (hyear : 0 ≤ (schemaSum t f.tm).date.year)
    (hyear' : (schemaSum t f.tm).date.year ≤ 9999) : ∃ turns, ∀ m, turns ≤ m → ∃ r,
      dayLoop m (loopState (carriedYear t f.tm) (monthReached t f.tm) (daySum t f.tm)) = some r ∧
        (julianDate r.1 r.2.1 r.2.2).get? = some (schemaSum t f.tm).mDate := by
  have hstart : InInt (yearOf (carriedYear t f.tm) (monthReached t f.tm)) := by
    rw [yearOf_monthReached]
    exact h.sums.year
  have hindex := (schemaSum t f.tm).date.monthIndex_div
  have hend : 0 ≤ yearOf (carriedYear t f.tm) (schemaSum t f.tm).date.monthIndex ∧
      yearOf (carriedYear t f.tm) (schemaSum t f.tm).date.monthIndex ≤ 10000 := by
    unfold yearOf
    split_ifs <;> omega
  have hdays := schemaSum_days h.clock
  have halong := h.days
  obtain ⟨turns, hturns⟩ := dayLoop_ends (counts_counted t f.tm) hstart
    (f := (schemaSum t f.tm).date.monthIndex) (d := (schemaSum t f.tm).date.day)
    (by unfold InInt; omega) (reached_start h.sums) ⟨(inPlace_date _).1, h.day⟩ (by
      rw [along_self]
      omega)
  refine ⟨turns, fun m hm => ⟨_, hturns m hm, ?_⟩⟩
  have hmonth := monthOf_bounds (carriedYear t f.tm) (schemaSum t f.tm).date.monthIndex
  have hcount := dayCount_date (schemaSum t f.tm)
  unfold loopState
  dsimp only
  rw [julianDate_month_get? hmonth.1 hmonth.2 (schemaSum t f.tm).date.day_pos
    (schemaSum t f.tm).date.day_le_31 hend.1 hend.2, yearOf_monthOf,
    ← Date.dayCount_eq_monthStart, hcount, Int.sub_add_cancel]

/-- A duration is added right if and only if these conditions hold. -/
theorem addDuration_iff (t : DateTime) (f : DurationText) (ht : t.Normal) (hyear : 0 ≤ t.date.year)
    (hyear' : t.date.year ≤ 9999) (hsum : 0 ≤ (schemaSum t f.tm).date.year)
    (hsum' : (schemaSum t f.tm).date.year ≤ 9999) : AddsRight t f ↔ Exact t f := by
  have hlt := ht.lt
  have hrange : t.InRange := inRange_of_year hyear hyear' ht.nonneg (by
    unfold MILLIS_PER_DAY at hlt
    omega)
  have hcounts := counts_counted t f.tm
  constructor
  · rintro ⟨turns, hturns⟩
    obtain ⟨hfits, hsums, hclock, r, hr, hdate⟩ :=
      (addDurationDateTime_iff hrange hlt).1 (hturns turns le_rfl)
    obtain ⟨hmillis, hclock⟩ := mTime_eq_iff.1 hclock.symm
    obtain ⟨hday, hdays⟩ := days_of_loop hsums hclock hsum hr hdate
    exact ⟨hfits, hsums, hmillis, hclock, hday, hdays⟩
  · intro h
    obtain ⟨turns, hturns⟩ := loop_of_exact h hsum hsum'
    refine ⟨turns, fun m hm => (addDurationDateTime_iff hrange hlt).2 ⟨h.fits, h.sums, ?_, ?_⟩⟩
    · exact (mTime_eq_iff.2 ⟨h.millis, h.clock⟩).symm
    · exact hturns m hm

/-- A month and 30 hours from the last day of January on. -/
theorem addDuration_iff_leap_day :
    AddsRight ⟨2451575, 0⟩ ⟨none, some (.ofInt 1), none, some (some (.ofInt 30), none, none)⟩ ↔
      Exact ⟨2451575, 0⟩ ⟨none, some (.ofInt 1), none, some (some (.ofInt 30), none, none)⟩ :=
  addDuration_iff _ _ ⟨by decide, by decide, by decide⟩ (by decide) (by decide) (by decide)
    (by decide)

example : DurationText.text ⟨none, some (.ofInt 1), none, some (some (.ofInt 30), none, none)⟩ =
    ascii "P1MT30H" := by decide

/-- A day before 1 January 2000 is 31 December, which is counted as if the month had 28 days. -/
theorem addDuration_false : ¬ ∀ (t : DateTime) (f : DurationText), t.Normal → 0 ≤ t.date.year →
    t.date.year ≤ 9999 → 0 ≤ (schemaSum t f.tm).date.year →
    (schemaSum t f.tm).date.year ≤ 9999 → AddsRight t f := by
  intro h
  obtain ⟨turns, hturns⟩ := h ⟨2451545, 0⟩
    ⟨none, none, some (.ofInt (-1)), none⟩ ⟨by decide, by decide, by decide⟩
    (by decide) (by decide) (by decide) (by decide)
  have hrange : InRange ⟨2451545, 0⟩ := ⟨by decide, by decide, by decide, by decide⟩
  obtain ⟨-, hsums, -, r, hr, hdate⟩ :=
    (addDurationDateTime_iff hrange (by decide)).1 (hturns turns le_rfl)
  exact absurd (days_of_loop hsums (by decide) (by decide) hr hdate).1 (by decide)

end Right

end DateTime

end Longda
