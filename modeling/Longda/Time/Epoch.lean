import Longda.Time.XmlDateTime

/-!
# Seconds from the epoch

A time is made of the fields that `gmtime_r` finds for its seconds, and is made seconds again by a
sum of `int`s, which is widened when it is done. So are the seconds from one time to another.
-/

namespace Longda

open Lib

namespace DateTime

/-- 1 January 1970. -/
def JULIAN_19700101 : ℤ := 2440588

def toTimeT (t : DateTime) : Option ℤ :=
  ((SECONDS_PER_DAY : CInt) * ((t.mDate : CInt) - (JULIAN_19700101 : CInt))
    + (t.mTime : CInt) / (MILLIS_PER_SEC : CInt)).get?

def fromTm (tm : Tm) (millis : ℤ) : Option DateTime := do
  let mDate ← (julianDate ((tm.tmYear : CInt) + 1900) ((tm.tmMon : CInt) + 1) tm.tmMday).get?
  let mTime ← (makeHMS tm.tmHour tm.tmMin tm.tmSec millis).get?
  some ⟨mDate, mTime⟩

def fromTimeT (gmtimeR : ℤ → Tm) (t millis : ℤ) : Option DateTime := fromTm (gmtimeR t) millis

/-- `operator-`. -/
def sub (lhs rhs : DateTime) : Option ℤ :=
  ((SECONDS_PER_DAY : CInt) * ((lhs.mDate : CInt) - (rhs.mDate : CInt))
    + (lhs.mTime : CInt) / 1000 - (rhs.mTime : CInt) / 1000).get?

/-! ## The fields of a time -/

/-- The day of the calendar so many seconds from 1970 on. -/
def utcDate (t : ℤ) : Date := .ofDayCount (t / 86400 + 719468)

/-- The fields of the calendar and of the clock so many seconds from 1970 on. -/
structure IsUtc (t : ℤ) (tm : Tm) : Prop where
  year : tm.tmYear = (utcDate t).year - 1900
  mon : tm.tmMon = (utcDate t).month - 1
  mday : tm.tmMday = (utcDate t).day
  hour_nonneg : 0 ≤ tm.tmHour
  hour_le : tm.tmHour ≤ 23
  min_nonneg : 0 ≤ tm.tmMin
  min_le : tm.tmMin ≤ 59
  sec_nonneg : 0 ≤ tm.tmSec
  sec_le : tm.tmSec ≤ 59
  clock : 3600 * tm.tmHour + 60 * tm.tmMin + tm.tmSec = t % 86400

def utcTm (t : ℤ) : Tm where
  tmYear := (utcDate t).year - 1900
  tmMon := (utcDate t).month - 1
  tmMday := (utcDate t).day
  tmHour := t % 86400 / 3600
  tmMin := t % 86400 / 60 % 60
  tmSec := t % 60

theorem isUtc_utcTm (t : ℤ) : IsUtc t (utcTm t) := by
  refine ⟨rfl, rfl, rfl, ?_, ?_, ?_, ?_, ?_, ?_, ?_⟩ <;> unfold utcTm <;> dsimp only <;> omega

/-- The date is in the years from 0 to 9999. -/
def InYears (t : ℤ) : Prop := 0 ≤ (utcDate t).year ∧ (utcDate t).year ≤ 9999

instance (t : ℤ) : Decidable (InYears t) := inferInstanceAs (Decidable (_ ∧ _))

variable {t u : ℤ}

theorem InYears.days (h : InYears t) : -719528 ≤ t / 86400 ∧ t / 86400 ≤ 2932896 := by
  have h0 := (utcDate t).year_nonneg_iff.1 h.1
  have h1 := (utcDate t).year_le_iff.1 h.2
  unfold utcDate at h0 h1
  rw [Date.dayCount_ofDayCount] at h0 h1
  omega

/-- The day and the time of day that are made of the fields. -/
theorem fromTm_eq {tm : Tm} (h : InYears t) (htm : IsUtc t tm) :
    fromTm tm 0 = some ⟨t / 86400 + JULIAN_19700101, t % 86400 * MILLIS_PER_SEC⟩ := by
  have hyear : (tm.tmYear : CInt) + 1900 = ((utcDate t).year : CInt) := by
    have h0 := h.1
    have h1 := h.2
    have heq := htm.year
    exact CInt.of_add_of (y := 1900) (by unfold InInt; omega) (by decide) (by unfold InInt; omega)
      (by omega)
  have hmon : (tm.tmMon : CInt) + 1 = ((utcDate t).month : CInt) := by
    have h0 := (utcDate t).month_pos
    have h1 := (utcDate t).month_le
    have heq := htm.mon
    exact CInt.of_add_of (y := 1) (by unfold InInt; omega) (by decide) (by unfold InInt; omega)
      (by omega)
  have hcount : (utcDate t).dayCount = t / 86400 + 719468 := Date.dayCount_ofDayCount _
  have hhour := htm.hour_nonneg
  have hhour' := htm.hour_le
  have hmin := htm.min_nonneg
  have hmin' := htm.min_le
  have hsec := htm.sec_nonneg
  have hsec' := htm.sec_le
  have hzero : ((0 : ℤ) : CInt) = 0 := rfl
  rw [fromTm, hyear, hmon, htm.mday, julianDate_of_year h.1 h.2, hcount, hzero,
    makeHMS_get? (by omega) (by omega) (by omega) (by omega) (by omega) (by omega), htm.clock]
  simp [JULIAN_19700101, MILLIS_PER_SEC]
  omega

/-! ## The sums -/

theorem toTimeT_iff (h : InYears t) :
    toTimeT ⟨t / 86400 + JULIAN_19700101, t % 86400 * MILLIS_PER_SEC⟩ = some t ↔
      -2 ^ 31 ≤ 86400 * (t / 86400) ∧ t < 2 ^ 31 := by
  have hdays := h.days
  have htime : (t % 86400 * 1000).tdiv 1000 = t % 86400 :=
    Int.mul_tdiv_cancel _ (by decide)
  rw [toTimeT, CInt.get?_eq_some_iff]
  simp [JULIAN_19700101, MILLIS_PER_SEC, SECONDS_PER_DAY, htime, InInt]
  omega

theorem sub_iff (ht : InYears t) (hu : InYears u) (h : InInt (t - u)) :
    sub ⟨t / 86400 + JULIAN_19700101, t % 86400 * MILLIS_PER_SEC⟩
        ⟨u / 86400 + JULIAN_19700101, u % 86400 * MILLIS_PER_SEC⟩ = some (t - u) ↔
      InInt (86400 * (t / 86400 - u / 86400)) ∧
        InInt (86400 * (t / 86400 - u / 86400) + t % 86400) := by
  have htdays := ht.days
  have hudays := hu.days
  have httime : (t % 86400 * 1000).tdiv 1000 = t % 86400 := Int.mul_tdiv_cancel _ (by decide)
  have hutime : (u % 86400 * 1000).tdiv 1000 = u % 86400 := Int.mul_tdiv_cancel _ (by decide)
  rw [sub, CInt.get?_eq_some_iff]
  simp [JULIAN_19700101, MILLIS_PER_SEC, SECONDS_PER_DAY, httime, hutime, InInt] at h ⊢
  omega

/-- The seconds come back. -/
def ComesBack (gmtimeR : ℤ → Tm) (t : ℤ) : Prop :=
  (fromTimeT gmtimeR t 0).bind toTimeT = some t

/-- The difference of two times is that of their seconds. -/
def Differs (gmtimeR : ℤ → Tm) (t u : ℤ) : Prop :=
  ∃ lhs rhs, fromTimeT gmtimeR t 0 = some lhs ∧ fromTimeT gmtimeR u 0 = some rhs ∧
    lhs.sub rhs = some (t - u)

/-- Where the library finds the fields, the seconds come back if and only if they and those of the
days fit an `int`, and so does the difference if and only if its days' seconds fit, alone and with
the seconds of the first time's day. -/
theorem epoch_iff (gmtimeR : ℤ → Tm) (hgmtime : ∀ t, InYears t → IsUtc t (gmtimeR t)) :
    (∀ t, InYears t →
      (ComesBack gmtimeR t ↔ -2 ^ 31 ≤ 86400 * (t / 86400) ∧ t < 2 ^ 31)) ∧
    ∀ t u, InYears t → InYears u → InInt (t - u) →
      (Differs gmtimeR t u ↔ InInt (86400 * (t / 86400 - u / 86400)) ∧
        InInt (86400 * (t / 86400 - u / 86400) + t % 86400)) := by
  refine ⟨fun t ht => ?_, fun t u ht hu h => ?_⟩
  · rw [← toTimeT_iff ht, ComesBack, fromTimeT, fromTm_eq ht (hgmtime t ht), Option.bind_some]
  · rw [← sub_iff ht hu h, Differs, fromTimeT, fromTimeT, fromTm_eq ht (hgmtime t ht),
      fromTm_eq hu (hgmtime u hu)]
    simp

/-- The fields of the calendar itself. -/
theorem epoch_iff_utcTm :
    (∀ t, InYears t →
      (ComesBack utcTm t ↔ -2 ^ 31 ≤ 86400 * (t / 86400) ∧ t < 2 ^ 31)) ∧
    ∀ t u, InYears t → InYears u → InInt (t - u) →
      (Differs utcTm t u ↔ InInt (86400 * (t / 86400 - u / 86400)) ∧
        InInt (86400 * (t / 86400 - u / 86400) + t % 86400)) :=
  epoch_iff utcTm fun t _ => isUtc_utcTm t

/-- The first second that does not fit is on 19 January 2038. -/
theorem epoch_false : ¬ ∀ gmtimeR : ℤ → Tm, (∀ t, InYears t → IsUtc t (gmtimeR t)) →
    (∀ t, InYears t → ComesBack gmtimeR t) ∧
      ∀ t u, InYears t → InYears u → InInt (t - u) → Differs gmtimeR t u := by
  intro h
  have hback := (h utcTm fun t _ => isUtc_utcTm t).1 (2 ^ 31) (by decide)
  rw [ComesBack, fromTimeT, fromTm_eq (by decide) (isUtc_utcTm _), Option.bind_some,
    toTimeT_iff (by decide)] at hback
  exact absurd hback.2 (by decide)

end DateTime

end Longda
