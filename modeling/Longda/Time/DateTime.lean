import Longda.Lib.CheckedInt
import Longda.Lib.Gregorian

/-!
# Dates and times

A `DateTime` is a Julian day number and the milliseconds since midnight, each an `int`. The
conversions are those of the Gregorian calendar (`calendar_bijection`) from 1 March of the year
-4800 on, where all the quotients they truncate are positive. `addSeconds` carries into the day, but
for a time that comes to midnight of the next day on the millisecond.
-/

namespace Longda

open Lib

@[ext]
structure DateTime where
  mDate : ℤ
  mTime : ℤ
  deriving DecidableEq

namespace DateTime

def SECONDS_PER_DAY : ℤ := 86400
def MILLIS_PER_DAY : ℤ := 86400000
def MILLIS_PER_SEC : ℤ := 1000

def julianDate (year month day : CInt) : CInt :=
  let a := (14 - month) / 12
  let y := year + 4800 - a
  let m := month + 12 * a - 3
  day + (153 * m + 2) / 5 + y * 365 + y / 4 - y / 100 + y / 400 - 32045

def getYMD (jday : CInt) : CInt × CInt × CInt :=
  let a := jday + 32044
  let b := (4 * a + 3) / 146097
  let c := a - b * 146097 / 4
  let d := (4 * c + 3) / 1461
  let e := c - 1461 * d / 4
  let m := (5 * e + 2) / 153
  let day := e - (153 * m + 2) / 5 + 1
  let month := m + 3 - 12 * (m / 10)
  let year := b * 100 + d - 4800 + m / 10
  (year, month, day)

/-- `operator+=`. -/
def addSeconds (t : DateTime) (seconds : ℤ) : Option DateTime := do
  let d ← ((seconds : CInt) / (SECONDS_PER_DAY : CInt)).get?
  let s ← ((seconds : CInt) % (SECONDS_PER_DAY : CInt)).get?
  let mDate ← ((t.mDate : CInt) + (d : CInt)).get?
  let mTime ← ((t.mTime : CInt) + (s : CInt) * (MILLIS_PER_SEC : CInt)).get?
  if mTime > MILLIS_PER_DAY then
    let mDate ← ((mDate : CInt) + 1).get?
    let mTime ← ((mTime : CInt) % (MILLIS_PER_DAY : CInt)).get?
    some ⟨mDate, mTime⟩
  else if mTime < 0 then
    let mDate ← ((mDate : CInt) - 1).get?
    let mTime ← ((mTime : CInt) + (MILLIS_PER_DAY : CInt)).get?
    some ⟨mDate, mTime⟩
  else some ⟨mDate, mTime⟩

def eq (lhs rhs : DateTime) : Bool :=
  decide (lhs.mDate = rhs.mDate) && decide (lhs.mTime = rhs.mTime)

def ne (lhs rhs : DateTime) : Bool := !lhs.eq rhs

def lt (lhs rhs : DateTime) : Bool :=
  if lhs.mDate < rhs.mDate then true
  else if lhs.mDate > rhs.mDate then false
  else if lhs.mTime < rhs.mTime then true
  else false

def gt (lhs rhs : DateTime) : Bool := !(lhs.eq rhs || lhs.lt rhs)

def le (lhs rhs : DateTime) : Bool := lhs.eq rhs || lhs.lt rhs

def ge (lhs rhs : DateTime) : Bool := lhs.eq rhs || lhs.gt rhs

/-! ## The calendar -/

/-- The day of the numbers that `getYMD` sets, if they are numbers. -/
def ymd? (jday : ℤ) : Option (ℤ × ℤ × ℤ) := do
  let (year, month, day) := getYMD jday
  some (← year.get?, ← month.get?, ← day.get?)

/-- The date is 1 March of the year -4800, or later. -/
def FromMarch (d : Date) : Prop := -4800 < d.year ∨ d.year = -4800 ∧ 3 ≤ d.month

instance (d : Date) : Decidable (FromMarch d) := inferInstanceAs (Decidable (_ ∨ _))

theorem fromMarch_iff {d : Date} : FromMarch d ↔ -4800 ≤ d.marchYear := by
  unfold FromMarch Date.marchYear
  split_ifs <;> omega

theorem fromMarch_iff_dayCount {d : Date} : FromMarch d ↔ -1753164 ≤ d.dayCount := by
  have h0 := d.dayOfMarchYear_nonneg
  have h1 := d.dayOfMarchYear_le
  rw [fromMarch_iff]
  unfold Date.dayCount
  omega

section Calendar

variable (d : Date)

theorem shift_year : (14 - d.month).tdiv 12 = d.year - d.marchYear := by
  have h1 := d.month_pos
  have h12 := d.month_le
  rw [Int.tdiv_eq_ediv_of_nonneg (by omega)]
  unfold Date.marchYear
  split_ifs <;> omega

theorem shift_month : d.month + 12 * (d.year - d.marchYear) - 3 = d.marchMonth := by
  unfold Date.marchYear Date.marchMonth
  split_ifs <;> omega

theorem julianDate_val {d : Date} (h : FromMarch d) :
    (julianDate d.year d.month d.day).val = d.dayCount + 1721120 := by
  have hy := fromMarch_iff.1 h
  have hm := d.marchMonth_nonneg
  unfold julianDate
  simp only [CInt.val_add, CInt.val_sub, CInt.val_mul, CInt.val_div, CInt.val_ofNat, CInt.val_of,
    shift_year, shift_month]
  have hyear : d.year + 4800 - (d.year - d.marchYear) = d.marchYear + 4800 := by omega
  rw [hyear, Int.tdiv_eq_ediv_of_nonneg (by omega), Int.tdiv_eq_ediv_of_nonneg (by omega),
    Int.tdiv_eq_ediv_of_nonneg (by omega), Int.tdiv_eq_ediv_of_nonneg (by omega)]
  unfold Date.dayCount Date.dayOfMarchYear
  omega

theorem dayCount_of_julianDate {d : Date} {j : ℤ} (h : FromMarch d)
    (hj : (julianDate d.year d.month d.day).get? = some j) : d.dayCount = j - 1721120 := by
  obtain ⟨-, rfl⟩ := CInt.get?_eq_some_iff.1 hj
  rw [julianDate_val h, Int.add_sub_cancel]

/-- No step overflows in the years that `getYMD` can come to. -/
theorem julianDate_fits {d : Date} (h : FromMarch d) (hle : d.marchYear ≤ 5000000) :
    (julianDate d.year d.month d.day).fits = true := by
  have hy := fromMarch_iff.1 h
  have hm := d.marchMonth_nonneg
  have hm' := d.marchMonth_le
  have h1 := d.month_pos
  have h12 := d.month_le
  have hd := d.day_pos
  have hd' := d.day_le_31
  have hyear : d.year + 4800 - (d.year - d.marchYear) = d.marchYear + 4800 := by omega
  have hor := d.year_eq
  unfold julianDate
  simp only [CInt.val_add, CInt.val_sub, CInt.val_mul, CInt.val_div, CInt.val_ofNat, CInt.val_of,
    CInt.fits_add, CInt.fits_sub, CInt.fits_mul, CInt.fits_div, CInt.fits_ofNat, CInt.fits_of,
    shift_year, shift_month, hyear]
  rw [Int.tdiv_eq_ediv_of_nonneg (by omega), Int.tdiv_eq_ediv_of_nonneg (by omega),
    Int.tdiv_eq_ediv_of_nonneg (by omega), Int.tdiv_eq_ediv_of_nonneg (by omega)]
  unfold InInt
  omega

variable {n j : ℤ}

/-- The quotients that `getYMD` takes are those of the calendar. -/
theorem steps_eq (h : -1753164 ≤ n) :
    (4 * (n + 1721120 + 32044) + 3).tdiv 146097 = Date.century n + 48
      ∧ n + 1721120 + 32044 - ((Date.century n + 48) * 146097).tdiv 4 = Date.dayOfCentury n
      ∧ (4 * Date.dayOfCentury n + 3).tdiv 1461 = Date.yearOfCentury n
      ∧ Date.dayOfCentury n - (1461 * Date.yearOfCentury n).tdiv 4 = Date.dayOfYear n
      ∧ (5 * Date.dayOfYear n + 2).tdiv 153 = Date.monthOfYear n := by
  have hb : (4 * (n + 1721120 + 32044) + 3).tdiv 146097 = Date.century n + 48 := by
    rw [Int.tdiv_eq_ediv_of_nonneg (by omega)]
    unfold Date.century
    omega
  have hb0 : 0 ≤ Date.century n + 48 := by
    unfold Date.century
    omega
  have hc := Date.dayOfCentury_bounds n
  have hr := Date.yearOfCentury_bounds n
  have he := Date.dayOfYear_bounds n
  refine ⟨hb, ?_, Int.tdiv_eq_ediv_of_nonneg (by omega), ?_, Int.tdiv_eq_ediv_of_nonneg (by omega)⟩
  · rw [Int.tdiv_eq_ediv_of_nonneg (by omega), Date.dayOfCentury_eq]
    omega
  · rw [Int.tdiv_eq_ediv_of_nonneg (by omega)]
    rfl

theorem getYMD_val (h : -32044 ≤ j) :
    (getYMD j).1.val = (Date.ofDayCount (j - 1721120)).year
      ∧ (getYMD j).2.1.val = (Date.ofDayCount (j - 1721120)).month
      ∧ (getYMD j).2.2.val = (Date.ofDayCount (j - 1721120)).day := by
  obtain ⟨n, rfl⟩ : ∃ n, j = n + 1721120 := ⟨j - 1721120, by omega⟩
  obtain ⟨hb, hc, hd, he, hm⟩ := steps_eq (n := n) (by omega)
  unfold getYMD
  simp only [CInt.val_add, CInt.val_sub, CInt.val_mul, CInt.val_div, CInt.val_ofNat, CInt.val_of,
    hb, hc, hd, he, hm]
  have hm0 := Date.monthOfYear_bounds n
  rw [Int.tdiv_eq_ediv_of_nonneg (by omega), Int.tdiv_eq_ediv_of_nonneg (by omega),
    Int.add_sub_cancel]
  unfold Date.ofDayCount
  exact ⟨by dsimp only; omega, rfl, rfl⟩

/-- The first product is the greatest number on the way. -/
theorem getYMD_fits_iff (h : -32044 ≤ j) :
    ((getYMD j).1.fits = true ∧ (getYMD j).2.1.fits = true ∧ (getYMD j).2.2.fits = true)
      ↔ 4 * (j + 32044) + 3 < 2 ^ 31 := by
  obtain ⟨n, rfl⟩ : ∃ n, j = n + 1721120 := ⟨j - 1721120, by omega⟩
  obtain ⟨hb, hc, hd, he, hm⟩ := steps_eq (n := n) (by omega)
  have hm0 := Date.monthOfYear_bounds n
  have he0 := Date.dayOfYear_bounds n
  have hd0 := Date.yearOfCentury_bounds n
  have hc0 := Date.dayOfCentury_bounds n
  unfold getYMD
  simp only [CInt.val_add, CInt.val_sub, CInt.val_mul, CInt.val_div, CInt.val_ofNat, CInt.val_of,
    CInt.fits_add, CInt.fits_sub, CInt.fits_mul, CInt.fits_div, CInt.fits_ofNat, CInt.fits_of,
    hb, hc, hd, he, hm]
  have hb0 : 0 ≤ Date.century n + 48 ∧ 146097 * Date.century n ≤ 4 * n + 3 := by
    unfold Date.century
    omega
  rw [Int.tdiv_eq_ediv_of_nonneg (a := (Date.century n + 48) * 146097) (by omega),
    Int.tdiv_eq_ediv_of_nonneg (a := 1461 * Date.yearOfCentury n) (by omega),
    Int.tdiv_eq_ediv_of_nonneg (a := 153 * Date.monthOfYear n + 2) (by omega),
    Int.tdiv_eq_ediv_of_nonneg (a := Date.monthOfYear n) (by omega)]
  unfold InInt
  constructor
  · omega
  · intro hle
    omega

theorem ymd?_eq_some_iff {r : ℤ × ℤ × ℤ} (h : -32044 ≤ j) : ymd? j = some r ↔
    4 * (j + 32044) + 3 < 2 ^ 31 ∧ ∃ d : Date, d.dayCount = j - 1721120
      ∧ r = (d.year, d.month, d.day) := by
  obtain ⟨hy, hm, hd⟩ := getYMD_val h
  rw [← getYMD_fits_iff h]
  simp only [ymd?, Option.bind_eq_bind, Option.bind_eq_some_iff, CInt.get?_eq_some_iff,
    Option.some.injEq]
  constructor
  · rintro ⟨_, ⟨hfy, rfl⟩, _, ⟨hfm, rfl⟩, _, ⟨hfd, rfl⟩, rfl⟩
    exact ⟨⟨hfy, hfm, hfd⟩, _, Date.dayCount_ofDayCount _, by rw [hy, hm, hd]⟩
  · rintro ⟨⟨hfy, hfm, hfd⟩, d, hcount, rfl⟩
    have hd' : Date.ofDayCount (j - 1721120) = d := by rw [← hcount, Date.ofDayCount_dayCount]
    rw [hd'] at hy hm hd
    exact ⟨_, ⟨hfy, hy⟩, _, ⟨hfm, hm⟩, _, ⟨hfd, hd⟩, rfl⟩

/-- From 1 March of the year -4800 and its day number on, wherever no step overflows, the
conversions undo each other and the next day has the next number. -/
theorem calendar_bijection :
    (∀ (d : Date) j r, FromMarch d → (julianDate d.year d.month d.day).get? = some j →
      ymd? j = some r → r = (d.year, d.month, d.day))
    ∧ (∀ j r, -32044 ≤ j → ymd? j = some r → ∃ d : Date, FromMarch d
      ∧ r = (d.year, d.month, d.day) ∧ (julianDate d.year d.month d.day).get? = some j)
    ∧ (∀ j, -32044 ≤ j → ((ymd? j).isSome ↔ 4 * (j + 32044) + 3 < 2 ^ 31))
    ∧ (∀ (d : Date) j k, FromMarch d → (julianDate d.year d.month d.day).get? = some j →
      (julianDate d.next.year d.next.month d.next.day).get? = some k → k = j + 1) := by
  refine ⟨fun d j r hd hj hr => ?_, fun j r h hr => ?_, fun j h => ?_, fun d j k hd hj hk => ?_⟩
  · have hcount := dayCount_of_julianDate hd hj
    have h0 := fromMarch_iff_dayCount.1 hd
    obtain ⟨-, d', hd', rfl⟩ := (ymd?_eq_some_iff (by omega)).1 hr
    obtain rfl : d' = d := Date.dayCountEquiv.injective (hd'.trans hcount.symm)
    rfl
  · obtain ⟨hlt, d, hcount, rfl⟩ := (ymd?_eq_some_iff h).1 hr
    have hd : FromMarch d := fromMarch_iff_dayCount.2 (by omega)
    have hle : d.marchYear ≤ 5000000 := by
      have := d.dayOfMarchYear_nonneg
      unfold Date.dayCount at hcount
      omega
    refine ⟨d, hd, rfl, CInt.get?_eq_some_iff.2 ⟨julianDate_fits hd hle, ?_⟩⟩
    rw [julianDate_val hd, hcount]
    omega
  · rw [Option.isSome_iff_exists]
    constructor
    · rintro ⟨r, hr⟩
      exact ((ymd?_eq_some_iff h).1 hr).1
    · intro hlt
      exact ⟨_, (ymd?_eq_some_iff h).2 ⟨hlt, _, Date.dayCount_ofDayCount _, rfl⟩⟩
  · have hcount := dayCount_of_julianDate hd hj
    have h0 := fromMarch_iff_dayCount.1 hd
    have hnext := d.dayCount_next
    have hcount' := dayCount_of_julianDate (fromMarch_iff_dayCount.2 (by omega)) hk
    omega

/-- A leap day, there and back. -/
theorem calendar_bijection_leap_day : ∃ d : Date, FromMarch d
    ∧ ((2000, 2, 29) : ℤ × ℤ × ℤ) = (d.year, d.month, d.day)
    ∧ (julianDate d.year d.month d.day).get? = some 2451604 :=
  calendar_bijection.2.1 2451604 (2000, 2, 29) (by decide) (by decide)

end Calendar

/-! ## Seconds -/

/-- The milliseconds from day 0 on. -/
def total (t : DateTime) : ℤ := t.mDate * MILLIS_PER_DAY + t.mTime

/-- The day is an `int`, and the time one of the day. -/
structure Normal (t : DateTime) : Prop where
  date : InInt t.mDate
  nonneg : 0 ≤ t.mTime
  lt : t.mTime < MILLIS_PER_DAY

/-- The operators say which of the two comes first. -/
structure Chronological (u v : DateTime) : Prop where
  eq : u.eq v = true ↔ u.total = v.total
  ne : u.ne v = true ↔ u.total ≠ v.total
  lt : u.lt v = true ↔ u.total < v.total
  gt : u.gt v = true ↔ v.total < u.total
  le : u.le v = true ↔ u.total ≤ v.total
  ge : u.ge v = true ↔ v.total ≤ u.total

variable {t u v : DateTime}

theorem eq_iff : u.eq v = true ↔ u = v := by
  simp [eq, DateTime.ext_iff]

theorem lt_iff : u.lt v = true ↔
    u.mDate < v.mDate ∨ u.mDate = v.mDate ∧ u.mTime < v.mTime := by
  unfold lt
  split_ifs <;> simp <;> omega

theorem Normal.chronological (hu : u.Normal) (hv : v.Normal) : Chronological u v := by
  have hu0 := hu.nonneg
  have hv0 := hv.nonneg
  have hu1 := hu.lt
  have hv1 := hv.lt
  unfold MILLIS_PER_DAY at hu1 hv1
  have heq : u.eq v = true ↔ u.total = v.total := by
    rw [eq_iff, DateTime.ext_iff]
    unfold total MILLIS_PER_DAY
    omega
  have hlt : u.lt v = true ↔ u.total < v.total := by
    rw [lt_iff]
    unfold total MILLIS_PER_DAY
    omega
  have hgt : u.gt v = true ↔ v.total < u.total := by
    unfold gt
    rw [Bool.not_eq_true', Bool.or_eq_false_iff, ← Bool.not_eq_true, ← Bool.not_eq_true, heq, hlt]
    omega
  refine ⟨heq, ?_, hlt, hgt, ?_, ?_⟩
  · unfold ne
    rw [Bool.not_eq_true', ← Bool.not_eq_true, heq]
  · unfold le
    rw [Bool.or_eq_true, heq, hlt]
    omega
  · unfold ge
    rw [Bool.or_eq_true, heq, hgt]
    omega

/-- The seconds are added, and the operators go on as before. -/
def Adds (t : DateTime) (seconds : ℤ) : Prop :=
  ∃ u, t.addSeconds seconds = some u ∧ u.Normal ∧ u.total = t.total + 1000 * seconds
    ∧ ∀ v, v.Normal → Chronological u v

/-- The time before a day is carried. -/
def rawTime (t : DateTime) (seconds : ℤ) : ℤ :=
  t.mTime + 1000 * seconds.tmod SECONDS_PER_DAY

theorem tdiv_day (seconds : ℤ) : seconds = 86400 * seconds.tdiv 86400 + seconds.tmod 86400
    ∧ -86400 < seconds.tmod 86400 ∧ seconds.tmod 86400 < 86400
    ∧ (0 ≤ seconds → 0 ≤ seconds.tmod 86400 ∧ 0 ≤ seconds.tdiv 86400)
    ∧ (seconds ≤ 0 → seconds.tmod 86400 ≤ 0 ∧ seconds.tdiv 86400 ≤ 0) := by
  obtain ⟨hsum, hgt, hlt⟩ := tdiv_add_tmod seconds (b := 86400) (by omega)
  refine ⟨hsum.symm, hgt, hlt, fun h => ?_, fun h => ?_⟩
  · have h0 := Int.tmod_nonneg 86400 h
    omega
  · have h0 := Int.tmod_nonneg 86400 (a := -seconds) (by omega)
    rw [Int.neg_tmod] at h0
    omega

variable {seconds : ℤ}

theorem Normal.rawTime_bounds (h : t.Normal) (seconds : ℤ) :
    -MILLIS_PER_DAY < t.rawTime seconds
    ∧ t.rawTime seconds < 2 * MILLIS_PER_DAY := by
  have h0 := h.nonneg
  have h1 := h.lt
  obtain ⟨-, hlo, hhi, -, -⟩ := tdiv_day seconds
  unfold rawTime MILLIS_PER_DAY SECONDS_PER_DAY at *
  omega

/-- The day and the raw time add up. -/
theorem total_rawTime (t : DateTime) (seconds : ℤ) :
    (t.mDate + seconds.tdiv SECONDS_PER_DAY) * MILLIS_PER_DAY + t.rawTime seconds
      = t.total + 1000 * seconds := by
  obtain ⟨hsum, -⟩ := tdiv_day seconds
  unfold total rawTime MILLIS_PER_DAY SECONDS_PER_DAY
  omega

/-- No step overflows where the day of the sum is an `int`. -/
theorem addSeconds_eq (h : t.Normal) (hs : InInt seconds)
    (hday : InInt ((t.total + 1000 * seconds) / MILLIS_PER_DAY)) :
    t.addSeconds seconds = some
      (if t.rawTime seconds > MILLIS_PER_DAY then
        ⟨t.mDate + seconds.tdiv SECONDS_PER_DAY + 1, t.rawTime seconds - MILLIS_PER_DAY⟩
      else if t.rawTime seconds < 0 then
        ⟨t.mDate + seconds.tdiv SECONDS_PER_DAY - 1, t.rawTime seconds + MILLIS_PER_DAY⟩
      else ⟨t.mDate + seconds.tdiv SECONDS_PER_DAY, t.rawTime seconds⟩) := by
  obtain ⟨hsum, hlo, hhi, hpos, hneg⟩ := tdiv_day seconds
  have hdate := h.date
  have h0 := h.nonneg
  have h1 := h.lt
  unfold total at hday
  unfold rawTime addSeconds
  unfold MILLIS_PER_DAY SECONDS_PER_DAY MILLIS_PER_SEC InInt at *
  have hd : ((seconds : CInt) / ((86400 : ℤ) : CInt)).get? = some (seconds.tdiv 86400) :=
    CInt.get?_of_fits (by simp [InInt]; omega)
  have hm : ((seconds : CInt) % ((86400 : ℤ) : CInt)).get? = some (seconds.tmod 86400) :=
    CInt.get?_of_fits (by simp [InInt]; omega)
  have hdate' : ((t.mDate : CInt) + (seconds.tdiv 86400 : CInt)).get?
      = some (t.mDate + seconds.tdiv 86400) :=
    CInt.get?_of_fits (by simp [InInt]; omega)
  have htime : ((t.mTime : CInt) + (seconds.tmod 86400 : CInt) * ((1000 : ℤ) : CInt)).get?
      = some (t.mTime + 1000 * seconds.tmod 86400) := by
    rw [mul_comm 1000]
    exact CInt.get?_of_fits (by simp [InInt]; omega)
  simp only [hd, hm, hdate', htime, Option.bind_eq_bind, Option.bind_some]
  split_ifs with hover hunder
  · have hcarry : (t.mTime + 1000 * seconds.tmod 86400).tmod 86400000
        = t.mTime + 1000 * seconds.tmod 86400 - 86400000 := by
      rw [Int.tmod_eq_emod_of_nonneg (by omega)]
      omega
    rw [CInt.get?_of_fits (by simp [InInt]; omega),
      CInt.get?_of_fits (by simp [InInt, hcarry]; omega)]
    simp [hcarry]
  · rw [CInt.get?_of_fits (by simp [InInt]; omega), CInt.get?_of_fits (by simp [InInt]; omega)]
    rfl
  · rfl

/-- The seconds are added wherever the sum is not midnight. -/
theorem addSeconds_iff (h : t.Normal) (hs : InInt seconds)
    (hday : InInt ((t.total + 1000 * seconds) / MILLIS_PER_DAY)) :
    t.Adds seconds ↔ t.rawTime seconds ≠ MILLIS_PER_DAY := by
  have heq := addSeconds_eq h hs hday
  obtain ⟨hlo, hhi⟩ := h.rawTime_bounds seconds
  have htotal := total_rawTime t seconds
  constructor
  · rintro ⟨u, hu, hnormal, -, -⟩ hmid
    rw [heq, hmid] at hu
    have hlt := hnormal.lt
    simp [MILLIS_PER_DAY] at hu hlt
    subst hu
    simp at hlt
  · intro hmid
    suffices hu : Normal _ ∧ total _ = t.total + 1000 * seconds from
      ⟨_, heq, hu.1, hu.2, fun v => hu.1.chronological⟩
    rw [← htotal] at hday ⊢
    unfold MILLIS_PER_DAY at *
    split_ifs with hover hunder
    all_goals refine ⟨⟨?_, ?_, ?_⟩, ?_⟩ <;> simp only [total, MILLIS_PER_DAY, InInt] at * <;> omega

/-- Two seconds over a day's last one. -/
theorem addSeconds_iff_past_midnight : Adds ⟨2451604, 86399000⟩ 2 :=
  (addSeconds_iff (t := ⟨2451604, 86399000⟩) ⟨by decide, by decide, by decide⟩ (by decide)
    (by decide)).2 (by decide)

/-- One second over it is no time of the day. -/
theorem midnight_stays : ¬ ∀ (t : DateTime) (seconds : ℤ), t.Normal → InInt seconds →
    InInt ((t.total + 1000 * seconds) / MILLIS_PER_DAY) → Adds t seconds := by
  intro hadds
  obtain ⟨u, hu, hnormal, -, -⟩ := hadds ⟨2451604, 86399000⟩ 1 ⟨by decide, by decide, by decide⟩
    (by decide) (by decide)
  obtain rfl : (⟨2451604, 86400000⟩ : DateTime) = u := Option.some.inj hu
  exact absurd hnormal.lt (by decide)

end DateTime

end Longda
