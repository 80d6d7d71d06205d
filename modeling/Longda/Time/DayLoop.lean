import Longda.Lib.Months
import Longda.Time.DateTime

/-!
# The days of a month put in order

The loop of `addDurationDateTime` goes from month to month until the day is one of its month. It
carries the months with quotients that are truncated, so that those before the year it is in have
numbers below 1, and counts 28 days for a month that it does not find in its list. So counted, each
turn is one of the months as places (`dayBody_eq`), and the loop ends at the one day of them that
keeps the count (`dayLoop_inPlace`, `dayLoop_ends`).
-/

namespace Longda

open Lib

namespace DateTime

def maxDayInMonthFor (yr month : CInt) : Option ℤ := do
  let tmpMonth ← ((month - 1) % 12 + 1).get?
  let tmpYear ← (yr + ((tmpMonth : CInt) - 1) / 12).get?
  if tmpMonth = 1 ∨ tmpMonth = 3 ∨ tmpMonth = 5 ∨ tmpMonth = 7 ∨ tmpMonth = 8 ∨ tmpMonth = 10
      ∨ tmpMonth = 12 then some 31
  else if tmpMonth = 4 ∨ tmpMonth = 6 ∨ tmpMonth = 9 ∨ tmpMonth = 11 then some 30
  else if tmpMonth = 2 ∧ (0 = tmpYear.tmod 400 ∨ 0 ≠ tmpYear.tmod 100 ∧ 0 = tmpYear.tmod 4) then
    some 29
  else some 28

/-- The end of a turn of the loop. -/
def carryInto (eYear eMonth eDay carryDay : ℤ) : Option (ℤ × ℤ × ℤ) := do
  let tmpMonth ← ((eMonth : CInt) + (carryDay : CInt)).get?
  let eMonth ← (((tmpMonth : CInt) - 1) % 12 + 1).get?
  let eYear ← ((eYear : CInt) + ((tmpMonth : CInt) - 1) / 12).get?
  some (eYear, eMonth, eDay)

/-- A turn of the loop, with nothing to go on with where the loop is left. -/
def dayBody : ℤ × ℤ × ℤ → Option (Option (ℤ × ℤ × ℤ))
  | (eYear, eMonth, eDay) =>
    if eDay < 1 then do
      let maxDay ← maxDayInMonthFor eYear ((eMonth : CInt) - 1)
      let eDay ← ((eDay : CInt) + (maxDay : CInt)).get?
      some (← carryInto eYear eMonth eDay (-1))
    else do
      let maxDay ← maxDayInMonthFor eYear eMonth
      if eDay > maxDay then
        let eDay ← ((eDay : CInt) - (maxDay : CInt)).get?
        some (← carryInto eYear eMonth eDay 1)
      else some none

def dayLoop : ℕ → ℤ × ℤ × ℤ → Option (ℤ × ℤ × ℤ)
  | 0, _ => none
  | n + 1, s => do
    match ← dayBody s with
    | none => some s
    | some s => dayLoop n s

/-! ## Months as they are counted -/

section Counted

variable (year k : ℤ)

/-- The days by which the source counts a month short that is before January of the year. Such a
month has a number below 1, and a January of its own is the only one in the list. -/
def short : ℤ := if k < 12 * year ∧ k % 12 ≠ 0 then monthLength k - 28 else 0

def counted : ℤ := monthLength k - short year k

/-- The year and the month of the source for a month counted from January of year 0. -/
def yearOf : ℤ := if k < 12 * year ∧ k % 12 ≠ 0 then k / 12 + 1 else k / 12

def monthOf : ℤ := if k < 12 * year ∧ k % 12 ≠ 0 then k % 12 - 11 else k % 12 + 1

theorem yearOf_monthOf : 12 * yearOf year k + (monthOf year k - 1) = k := by
  unfold yearOf monthOf
  split_ifs <;> omega

theorem monthOf_bounds : -10 ≤ monthOf year k ∧ monthOf year k ≤ 12 := by
  unfold monthOf
  split_ifs <;> omega

theorem yearOf_mono {k' : ℤ} (h : k ≤ k') : yearOf year k ≤ yearOf year k' := by
  unfold yearOf
  split_ifs <;> omega

theorem short_lt : short year k < monthLength k := by
  have h : 28 ≤ monthLength k := le_daysInMonth _ _
  unfold short
  split_ifs <;> omega

theorem counted_le : counted year k ≤ monthLength k := by
  have h : 28 ≤ monthLength k := le_daysInMonth _ _
  unfold counted short
  split_ifs <;> omega

theorem counted_bounds : 28 ≤ counted year k ∧ counted year k ≤ 31 := by
  have h : 28 ≤ monthLength k := le_daysInMonth _ _
  have h' : monthLength k ≤ 31 := daysInMonth_le _ _
  unfold counted short
  split_ifs <;> omega

variable {year k}

theorem tmod_twelve {m : ℤ} (h : -12 ≤ m) (h' : m ≤ 12) :
    m.tmod 12 = if m = 12 ∨ m = -12 then 0 else m := by
  interval_cases m <;> rfl

theorem tdiv_twelve {m : ℤ} (h : -12 ≤ m) (h' : m ≤ 12) :
    m.tdiv 12 = if m = 12 then 1 else if m = -12 then -1 else 0 := by
  interval_cases m <;> rfl

theorem leap_iff {yr : ℤ} :
    (0 = yr.tmod 400 ∨ 0 ≠ yr.tmod 100 ∧ 0 = yr.tmod 4) ↔ Leap yr := by
  rw [eq_comm, ← Int.dvd_iff_tmod_eq_zero, ne_comm, ne_eq, ← Int.dvd_iff_tmod_eq_zero, eq_comm,
    ← Int.dvd_iff_tmod_eq_zero]
  unfold Leap
  omega

/-- The list has the lengths of the months, for a month that is one, or is -11. -/
theorem maxDayInMonthFor_eq {yr : ℤ} {month : CInt} (hyr : InInt yr) (hmonth : month.fits = true)
    (h : -11 ≤ month.val) (h' : month.val ≤ 12) : maxDayInMonthFor yr month = some
      (if 1 ≤ month.val then daysInMonth yr month.val else if month.val = -11 then 31 else 28) := by
  have hrem : (month.val - 1).tmod 12 + 1 = if month.val = -11 then 1 else month.val := by
    rw [tmod_twelve (by omega) (by omega)]
    split_ifs <;> omega
  have htmpMonth : ((month - 1) % 12 + 1).get? =
      some (if month.val = -11 then 1 else month.val) := by
    rw [← hrem]
    refine CInt.get?_of_fits ?_
    have hbounds : -11 ≤ (month.val - 1).tmod 12 + 1 ∧ (month.val - 1).tmod 12 + 1 ≤ 12 := by
      rw [hrem]
      split_ifs <;> omega
    simp [hmonth, InInt]
    omega
  unfold maxDayInMonthFor
  rw [htmpMonth, Option.bind_eq_bind, Option.bind_some]
  generalize htmp : (if month.val = -11 then 1 else month.val) = tmpMonth
  have hbounds : -10 ≤ tmpMonth ∧ tmpMonth ≤ 12 := by
    rw [← htmp]
    split_ifs <;> omega
  have hquot : (tmpMonth - 1).tdiv 12 = 0 := by
    rw [tdiv_twelve (by omega) (by omega), if_neg (by omega), if_neg (by omega)]
  have htmpYear : ((yr : CInt) + ((tmpMonth : CInt) - 1) / 12).get? = some yr := by
    rw [CInt.get?_eq_some_iff]
    unfold InInt at hyr
    simp [hquot, InInt]
    omega
  rw [htmpYear, Option.bind_some]
  simp only [leap_iff]
  unfold daysInMonth
  by_cases hleap : Leap yr <;> simp only [hleap, and_true, and_false, if_true, if_false] <;>
    split_ifs at htmp ⊢ <;> first | rfl | omega

theorem counted_eq : counted year k =
    if k < 12 * year ∧ k % 12 ≠ 0 then 28 else daysInMonth (k / 12) (k % 12 + 1) := by
  unfold counted short
  split_ifs
  · omega
  · exact Int.sub_zero _

/-- A month is counted as the source does. -/
theorem maxDayInMonthFor_month (hyear : InInt (yearOf year k)) :
    maxDayInMonthFor (yearOf year k) (monthOf year k) = some (counted year k) := by
  have hmonth := monthOf_bounds year k
  rw [maxDayInMonthFor_eq hyear (by simp [InInt]; omega) (by simp; omega) (by simp; omega),
    counted_eq, CInt.val_of]
  unfold yearOf monthOf
  split_ifs <;> first | rfl | omega

/-- So is the month before, even if it is the one before January. -/
theorem maxDayInMonthFor_before (hyear : InInt (yearOf year k)) (h : k ≤ 12 * year + 11) :
    maxDayInMonthFor (yearOf year k) ((monthOf year k : CInt) - 1) =
      some (counted year (k - 1)) := by
  have hmonth := monthOf_bounds year k
  rw [maxDayInMonthFor_eq hyear (by simp [InInt]; omega) (by simp; omega) (by simp; omega),
    counted_eq, CInt.val_sub, CInt.val_of, CInt.val_ofNat]
  unfold yearOf monthOf
  by_cases hbefore : k < 12 * year ∧ k % 12 ≠ 0
  · rw [if_pos hbefore, if_pos hbefore, if_neg (by omega)]
    by_cases hfirst : k % 12 = 1
    · rw [if_pos (by omega), if_neg (by omega), show (k - 1) % 12 + 1 = 1 by omega]
      rfl
    · rw [if_neg (by omega), if_pos (by omega)]
  · rw [if_neg hbefore, if_neg hbefore]
    by_cases hfirst : k % 12 = 0
    · rw [if_neg (by omega), if_neg (by omega), if_pos (by omega)]
    · rw [if_pos (by omega), if_neg (by omega), show (k - 1) / 12 = k / 12 by omega,
        show (k - 1) % 12 + 1 = k % 12 + 1 - 1 by omega]

theorem carryInto_eq {eYear eMonth eDay carryDay m : ℤ} (hyear : InInt eYear)
    (hm : eMonth + carryDay - 1 = m) (hge : -12 ≤ m) (hle : m ≤ 12)
    (hcarry : carryDay = 1 ∨ carryDay = -1) :
    carryInto eYear eMonth eDay carryDay = if InInt (eYear + m.tdiv 12) then
      some (eYear + m.tdiv 12, m.tmod 12 + 1, eDay) else none := by
  have hrem : -11 ≤ m.tmod 12 ∧ m.tmod 12 ≤ 11 := by
    rw [tmod_twelve hge hle]
    split_ifs <;> omega
  have hquot : -1 ≤ m.tdiv 12 ∧ m.tdiv 12 ≤ 1 := by
    rw [tdiv_twelve hge hle]
    split_ifs <;> omega
  have htmpMonth : ((eMonth : CInt) + (carryDay : CInt)).get? = some (m + 1) := by
    rw [CInt.get?_eq_some_iff]
    simp [InInt]
    omega
  have hmonth : ((((m + 1 : ℤ) : CInt) - 1) % 12 + 1).get? = some (m.tmod 12 + 1) := by
    rw [CInt.get?_eq_some_iff]
    simp [InInt]
    omega
  have hcarried : ((eYear : CInt) + (((m + 1 : ℤ) : CInt) - 1) / 12).get? =
      if InInt (eYear + m.tdiv 12) then some (eYear + m.tdiv 12) else none := by
    unfold CInt.get?
    refine if_congr ?_ (by simp) rfl
    simp [hyear]
    unfold InInt
    omega
  unfold carryInto
  rw [htmpMonth, Option.bind_eq_bind, Option.bind_some, hmonth, Option.bind_some, hcarried]
  split_ifs <;> rfl

/-- The month after, or the month before. -/
theorem carryInto_step {eDay j : ℤ} (hyear : InInt (yearOf year k))
    (hj : j = 1 ∧ 12 * year - 11 ≤ k ∨ j = -1 ∧ k ≤ 12 * year + 11) :
    carryInto (yearOf year k) (monthOf year k) eDay j = if InInt (yearOf year (k + j)) then
      some (yearOf year (k + j), monthOf year (k + j), eDay) else none := by
  have hmonth := monthOf_bounds year k
  have hge : -12 ≤ monthOf year k + j - 1 := by omega
  have hle : monthOf year k + j - 1 ≤ 12 := by omega
  have hyear' : yearOf year k + (if monthOf year k + j - 1 = 12 then 1
      else if monthOf year k + j - 1 = -12 then -1 else 0) = yearOf year (k + j) := by
    unfold yearOf monthOf
    rcases hj with ⟨rfl, hk⟩ | ⟨rfl, hk⟩ <;> split_ifs <;> omega
  have hmonth' : (if monthOf year k + j - 1 = 12 ∨ monthOf year k + j - 1 = -12 then 0
      else monthOf year k + j - 1) + 1 = monthOf year (k + j) := by
    unfold monthOf
    rcases hj with ⟨rfl, hk⟩ | ⟨rfl, hk⟩ <;> split_ifs <;> omega
  rw [carryInto_eq hyear rfl hge hle (hj.imp And.left And.left), tdiv_twelve hge hle,
    tmod_twelve hge hle, hyear', hmonth']

/-! ## The loop -/

variable {n : ℤ}

/-- The year, the month and the day that the loop is in for a day of a month. -/
def loopState (year k n : ℤ) : ℤ × ℤ × ℤ := (yearOf year k, monthOf year k, n)

/-- The loop goes back from the year on and on from the months before it, and never both ways. -/
structure Reached (year k n : ℤ) : Prop where
  back : n < 1 → k ≤ 12 * year + 11
  on : counted year k < n → 12 * year - 11 ≤ k
  fits : InInt n

/-- A turn of the loop is one of the months as they are counted. -/
theorem dayBody_eq (hyear : InInt (yearOf year k)) (h : Reached year k n) :
    dayBody (loopState year k n) = match turn (counted year) k n with
      | none => some none
      | some (k', n') =>
        if InInt (yearOf year k') then some (some (loopState year k' n')) else none := by
  have hn := h.fits
  have hcounted := counted_bounds year k
  have hcounted' := counted_bounds year (k - 1)
  unfold InInt at hn
  unfold dayBody loopState turn
  dsimp only
  by_cases hlow : n < 1
  · have hday : ((n : CInt) + (counted year (k - 1) : CInt)).get? =
        some (n + counted year (k - 1)) :=
      CInt.get?_of_fits (by simp [InInt]; omega)
    rw [if_pos hlow, if_pos hlow, maxDayInMonthFor_before hyear (h.back hlow),
      Option.bind_eq_bind, Option.bind_some, hday, Option.bind_some,
      carryInto_step hyear (.inr ⟨rfl, h.back hlow⟩), ← Int.sub_eq_add_neg]
    dsimp only
    split_ifs <;> rfl
  · rw [if_neg hlow, if_neg hlow, maxDayInMonthFor_month hyear, Option.bind_eq_bind,
      Option.bind_some]
    by_cases hhigh : counted year k < n
    · have hday : ((n : CInt) - (counted year k : CInt)).get? = some (n - counted year k) :=
        CInt.get?_of_fits (by simp [InInt]; omega)
      rw [if_pos hhigh, if_pos hhigh, hday, Option.bind_some,
        carryInto_step hyear (.inl ⟨rfl, h.on hhigh⟩)]
      dsimp only
      split_ifs <;> rfl
    · rw [if_neg hhigh, if_neg hhigh]

theorem Reached.turn {k' n' : ℤ} (h : Reached year k n)
    (ht : turn (counted year) k n = some (k', n')) : Reached year k' n' := by
  have hn := h.fits
  have hback := h.back
  have hon := h.on
  have hcounted := counted_bounds year k
  have hcounted' := counted_bounds year (k - 1)
  unfold InInt at hn
  unfold Lib.turn at ht
  split_ifs at ht with hlow hhigh <;> obtain ⟨rfl, rfl⟩ := Prod.mk.inj (Option.some.inj ht)
  · have := hback hlow
    exact ⟨fun _ => by omega, fun h => by omega, by unfold InInt; omega⟩
  · have := hon hhigh
    exact ⟨fun h => by omega, fun _ => by omega, by unfold InInt; omega⟩

theorem dayLoop_succ (m : ℕ) (s : ℤ × ℤ × ℤ) :
    dayLoop (m + 1) s = (dayBody s).bind fun r => r.elim (some s) (dayLoop m) := by
  rw [dayLoop, Option.bind_eq_bind]
  congr 1
  funext r
  cases r <;> rfl

variable {start : ℤ → ℤ} (hcounts : Counts start (counted year))
include hcounts

/-- Where the loop is left, the day is in order and the count of the days is the same. -/
theorem dayLoop_inPlace {m : ℕ} {r : ℤ × ℤ × ℤ} (hyear : InInt (yearOf year k))
    (h : Reached year k n) (hr : dayLoop m (loopState year k n) = some r) :
    ∃ f d, r = loopState year f d ∧ InPlace (counted year) f d ∧
      start f + d = start k + n := by
  induction m generalizing k n with
  | zero => cases hr
  | succ m ih =>
    rw [dayLoop_succ, dayBody_eq hyear h] at hr
    rcases ht : turn (counted year) k n with _ | ⟨k', n'⟩ <;> rw [ht] at hr
    · exact ⟨k, n, (Option.some.inj hr).symm, turn_eq_none_iff.1 ht, rfl⟩
    · dsimp only at hr
      split_ifs at hr with hyear'
      · obtain ⟨f, d, hfd, hplace, htotal⟩ := ih hyear' (h.turn ht) hr
        exact ⟨f, d, hfd, hplace, htotal.trans (hcounts.turn_total ht)⟩
      · cases hr

/-- The loop ends at the day in order with the same count, turn by turn towards its month. -/
theorem dayLoop_ends {f d : ℤ} (hyear : InInt (yearOf year k)) (hyear' : InInt (yearOf year f))
    (h : Reached year k n) (hplace : InPlace (counted year) f d)
    (htotal : start k + n = start f + d) :
    ∃ turns, ∀ m, turns ≤ m → dayLoop m (loopState year k n) = some (loopState year f d) := by
  obtain ⟨j, hj⟩ : ∃ j : ℕ, (f - k).natAbs = j := ⟨_, rfl⟩
  induction j generalizing k n with
  | zero =>
    obtain rfl : k = f := by omega
    obtain rfl : n = d := by omega
    refine ⟨1, fun m hm => ?_⟩
    obtain ⟨m, rfl⟩ : ∃ i, m = i + 1 := ⟨m - 1, by omega⟩
    rw [dayLoop_succ, dayBody_eq hyear h, turn_eq_none_iff.2 hplace]
    rfl
  | succ j ih =>
    obtain ⟨hon, hback⟩ := hcounts.position hplace htotal
    obtain ⟨k', n', ht, hk'⟩ : ∃ k' n', turn (counted year) k n = some (k', n') ∧
        (k < f ∧ k' = k + 1 ∨ f < k ∧ k' = k - 1) := by
      unfold turn
      rcases Int.lt_or_gt_of_ne (show k ≠ f by omega) with hlt | hlt
      · rw [if_neg (by have := hon hlt; omega), if_pos (hon hlt).2]
        exact ⟨_, _, rfl, .inl ⟨hlt, rfl⟩⟩
      · rw [if_pos (hback hlt)]
        exact ⟨_, _, rfl, .inr ⟨hlt, rfl⟩⟩
    have hbetween : InInt (yearOf year k') := by
      unfold InInt at *
      rcases hk' with ⟨hlt, rfl⟩ | ⟨hlt, rfl⟩
      · have h0 := yearOf_mono year k (show k ≤ k + 1 by omega)
        have h1 := yearOf_mono year (k + 1) (show k + 1 ≤ f by omega)
        omega
      · have h0 := yearOf_mono year (k - 1) (show k - 1 ≤ k by omega)
        have h1 := yearOf_mono year f (show f ≤ k - 1 by omega)
        omega
    obtain ⟨turns, hturns⟩ := ih hbetween (h.turn ht) ((hcounts.turn_total ht).trans htotal)
      (by omega)
    refine ⟨turns + 1, fun m hm => ?_⟩
    obtain ⟨m, rfl⟩ : ∃ i, m = i + 1 := ⟨m - 1, by omega⟩
    rw [dayLoop_succ, dayBody_eq hyear h, ht]
    dsimp only
    rw [if_pos hbetween]
    exact hturns m (by omega)

end Counted

/-! ## The Julian day -/

section Julian

variable {year month day : ℤ}

/-- The months below 1 are those of the year before. -/
theorem shift_below (year : ℤ) (h : -10 ≤ month) (h' : month ≤ 12) :
    year - (14 - month).tdiv 12 = (12 * year + (month - 1) - 2) / 12 ∧
      month + 12 * (14 - month).tdiv 12 - 3 = (12 * year + (month - 1) - 2) % 12 := by
  rw [Int.tdiv_eq_ediv_of_nonneg (by omega)]
  omega

theorem julianDate_month_val (h : -10 ≤ month) (h' : month ≤ 12) (hday : day ≤ 31)
    (hpos : 0 ≤ (julianDate year month day).val) : (julianDate year month day).val =
      monthStart (12 * year + (month - 1)) + day - 1 + 1721120 := by
  obtain ⟨hyear, hmonth⟩ := shift_below year h h'
  have hy : year + 4800 - (14 - month).tdiv 12 =
      (12 * year + (month - 1) - 2) / 12 + 4800 := by omega
  unfold julianDate at hpos ⊢
  simp only [CInt.val_add, CInt.val_sub, CInt.val_mul, CInt.val_div, CInt.val_ofNat, CInt.val_of,
    hmonth, hy] at hpos ⊢
  unfold monthStart
  generalize (12 * year + (month - 1) - 2) / 12 = y at hpos ⊢
  have hm0 : 0 ≤ (12 * year + (month - 1) - 2) % 12 ∧ (12 * year + (month - 1) - 2) % 12 < 12 := by
    omega
  generalize (12 * year + (month - 1) - 2) % 12 = m at hpos hm0 ⊢
  rw [Int.tdiv_eq_ediv_of_nonneg (a := 153 * m + 2) (by omega)] at hpos ⊢
  have hy0 : 0 ≤ y + 4800 := by
    -- a year before them has a number below zero
    by_contra hneg
    obtain ⟨h4, h4', -⟩ := tdiv_add_tmod (y + 4800) (b := 4) (by omega)
    obtain ⟨h100, -, h100'⟩ := tdiv_add_tmod (y + 4800) (b := 100) (by omega)
    obtain ⟨h400, h400', -⟩ := tdiv_add_tmod (y + 4800) (b := 400) (by omega)
    omega
  rw [Int.tdiv_eq_ediv_of_nonneg hy0, Int.tdiv_eq_ediv_of_nonneg hy0,
    Int.tdiv_eq_ediv_of_nonneg hy0]
  omega

theorem julianDate_month_get? (h : -10 ≤ month) (h' : month ≤ 12) (hday : 1 ≤ day)
    (hday' : day ≤ 31) (hyear : 0 ≤ year) (hyear' : year ≤ 10000) :
    (julianDate year month day).get? =
      some (monthStart (12 * year + (month - 1)) + day - 1 + 1721120) := by
  obtain ⟨-, hm⟩ := shift_below year h h'
  have ha : 0 ≤ (14 - month).tdiv 12 ∧ (14 - month).tdiv 12 ≤ 2 := by
    rw [Int.tdiv_eq_ediv_of_nonneg (by omega)]
    omega
  suffices hall : (julianDate year month day).fits = true ∧
      0 ≤ (julianDate year month day).val from
    CInt.get?_eq_some_iff.2 ⟨hall.1, julianDate_month_val h h' hday' hall.2⟩
  unfold julianDate
  simp only [CInt.val_add, CInt.val_sub, CInt.val_mul, CInt.val_div, CInt.val_ofNat, CInt.val_of,
    CInt.fits_add, CInt.fits_sub, CInt.fits_mul, CInt.fits_div, CInt.fits_ofNat, CInt.fits_of]
  generalize (14 - month).tdiv 12 = a at hm ha ⊢
  rw [Int.tdiv_eq_ediv_of_nonneg (by omega), Int.tdiv_eq_ediv_of_nonneg (by omega),
    Int.tdiv_eq_ediv_of_nonneg (by omega), Int.tdiv_eq_ediv_of_nonneg (by omega)]
  unfold InInt
  omega

end Julian

end DateTime

end Longda
