import Longda.Lang.Sscanf
import Longda.Time.DateTime

/-!
# Dates and times as text

`toXmlDateTime` writes the year as it is and the other fields with two digits, and the constructor
scans fields of up to four and two digits, so that a time is read again as it was written, to the
second (`ofXml_toXmlDateTime`). `isValidXMLDatetime` looks at the characters and at each field for
itself: it lets through days that the month does not have, a minute and a second of 60, and years
that are written with fewer digits.
-/

namespace Longda

open Lib

/-- The fields of a `tm` that are used. -/
structure Tm where
  tmYear : ℤ
  tmMon : ℤ
  tmMday : ℤ
  tmHour : ℤ
  tmMin : ℤ
  tmSec : ℤ
  deriving DecidableEq

namespace DateTime

def SECONDS_PER_HOUR : ℤ := 3600
def SECONDS_PER_MIN : ℤ := 60
def MINUTES_PER_HOUR : ℤ := 60

/-- `getHMS`, without the milliseconds, which are not read here. -/
def getHMS (mTime : CInt) : CInt × CInt × CInt :=
  let ticks := mTime / (MILLIS_PER_SEC : CInt)
  let hour := ticks / (SECONDS_PER_HOUR : CInt)
  let minute := ticks / (SECONDS_PER_MIN : CInt) % (MINUTES_PER_HOUR : CInt)
  let second := ticks % (SECONDS_PER_MIN : CInt)
  (hour, minute, second)

def makeHMS (hour minute second millis : CInt) : CInt :=
  (MILLIS_PER_SEC : CInt) * ((SECONDS_PER_HOUR : CInt) * hour + (SECONDS_PER_MIN : CInt) * minute
    + second) + millis

def toTm (t : DateTime) : Option Tm := do
  let (year, month, day) ← ymd? t.mDate
  let (hour, minute, second) := getHMS t.mTime
  some {
    tmYear := ← ((year : CInt) - 1900).get?
    tmMon := ← ((month : CInt) - 1).get?
    tmMday := day
    tmHour := ← hour.get?
    tmMin := ← minute.get?
    tmSec := ← second.get? }

/-- A field with a zero in front if it is below ten. -/
def twoDigits (n : ℤ) : Str := (if n ≤ 9 then ascii "0" else []) ++ printInt n

def toXmlDateTime (t : DateTime) : Option Str := do
  let tmInfo ← t.toTm
  let year ← ((tmInfo.tmYear : CInt) + 1900).get?
  let mon ← ((tmInfo.tmMon : CInt) + 1).get?
  some (printInt year ++ ascii "-" ++ twoDigits mon ++ ascii "-" ++ twoDigits tmInfo.tmMday
    ++ ascii "T" ++ twoDigits tmInfo.tmHour ++ ascii ":" ++ twoDigits tmInfo.tmMin
    ++ ascii ":" ++ twoDigits tmInfo.tmSec ++ ascii "Z")

/-- `%04d-%02d-%02dT%02d:%02d:%02dZ`. -/
def XML_FORMAT : List Directive :=
  [.int (some 4), .char 45, .int (some 2), .char 45, .int (some 2), .char 84, .int (some 2),
    .char 58, .int (some 2), .char 58, .int (some 2), .char 90]

/-- The constructor. A field that is not read is not set. -/
def ofXml (xmlStr : Str) : Option DateTime :=
  match sscanf XML_FORMAT (xmlStr.takeWhile (· ≠ 0)) with
  | [year, mon, mday, hour, min, sec] => do
    let mDate ← (julianDate year mon mday).get?
    let mTime ← (makeHMS hour min sec 0).get?
    some ⟨mDate, mTime⟩
  | _ => none

def isValidXMLDatetime (str : Str) : Bool :=
  if str.length ≠ 20 then false
  else if ¬ ((ascii "0000-00-00T00:00:00Z").zip str).all
      (fun (flag, c) => if flag = 48 then isdigit c else decide (flag = c)) then false
  else match sscanf XML_FORMAT (str.takeWhile (· ≠ 0)) with
    | [_, mon, mday, hour, min, sec] =>
      if mon > 12 ∨ mon ≤ 0 then false
      else if mday > 31 ∨ mday ≤ 0 then false
      else if hour > 24 ∨ hour < 0 then false
      else if min > 60 ∨ min < 0 then false
      else if sec > 60 ∨ sec < 0 then false
      else true
    | _ => false

/-! ## Fields and text -/

section Text

/-- The fields with what stands between them. -/
def xmlText (year mon mday hour min sec : Str) : Str :=
  year ++ 45 :: (mon ++ 45 :: (mday ++ 84 :: (hour ++ 58 :: (min ++ 58 :: (sec ++ [90])))))

structure IsField (width : ℕ) (ds : Str) : Prop where
  digits : ∀ c ∈ ds, IsDigit c
  ne_nil : ds ≠ []
  length_le : ds.length ≤ width

theorem sscanf_field {width : ℕ} {ds rest : Str} {c : UInt8} {format : List Directive}
    (h : IsField width ds) (hc : ¬ IsDigit c) :
    sscanf (.int (some width) :: .char c :: format) (ds ++ c :: rest) =
      (number ds : ℤ) :: sscanf format rest := by
  have hscan : scanInt (some width) (ds ++ c :: rest) = _ :=
    scanInt_digits h.digits h.ne_nil h.length_le (.inr fun c' hc' => Option.some.inj hc' ▸ hc)
  simp [sscanf, hscan]

theorem sscanf_xmlText {year mon mday hour min sec : Str} (hyear : IsField 4 year)
    (hmon : IsField 2 mon) (hmday : IsField 2 mday) (hhour : IsField 2 hour)
    (hmin : IsField 2 min) (hsec : IsField 2 sec) :
    sscanf XML_FORMAT (xmlText year mon mday hour min sec) =
      [(number year : ℤ), number mon, number mday, number hour, number min, number sec] := by
  unfold XML_FORMAT xmlText
  rw [sscanf_field hyear (by decide), sscanf_field hmon (by decide),
    sscanf_field hmday (by decide), sscanf_field hhour (by decide), sscanf_field hmin (by decide),
    sscanf_field hsec (by decide)]
  rfl

theorem zero_notMem_xmlText {year mon mday hour min sec : Str} (hyear : IsField 4 year)
    (hmon : IsField 2 mon) (hmday : IsField 2 mday) (hhour : IsField 2 hour)
    (hmin : IsField 2 min) (hsec : IsField 2 sec) :
    (0 : UInt8) ∉ xmlText year mon mday hour min sec := by
  have h0 : ∀ {width ds}, IsField width ds → (0 : UInt8) ∉ ds := fun h h0 =>
    absurd (h.digits 0 h0) (by decide)
  simp [xmlText, h0 hyear, h0 hmon, h0 hmday, h0 hhour, h0 hmin, h0 hsec]

theorem xmlText_inj {year mon mday hour min sec year' mon' mday' hour' min' sec' : Str}
    (hyear : year.length = 4) (hmon : mon.length = 2) (hmday : mday.length = 2)
    (hhour : hour.length = 2) (hmin : min.length = 2) (hsec : sec.length = 2)
    (hmon' : mon'.length = 2) (hmday' : mday'.length = 2) (hhour' : hour'.length = 2)
    (hmin' : min'.length = 2) (hsec' : sec'.length = 2)
    (h : xmlText year' mon' mday' hour' min' sec' = xmlText year mon mday hour min sec) :
    year' = year ∧ mon' = mon ∧ mday' = mday ∧ hour' = hour ∧ min' = min ∧ sec' = sec := by
  have hlen : year'.length = 4 := by
    have := congrArg List.length h
    simp [xmlText] at this
    omega
  unfold xmlText at h
  obtain ⟨hy, h⟩ := List.append_inj h (by omega)
  obtain ⟨hmo, h⟩ := List.append_inj ((List.cons_inj_right _).1 h) (by omega)
  obtain ⟨hd, h⟩ := List.append_inj ((List.cons_inj_right _).1 h) (by omega)
  obtain ⟨hh, h⟩ := List.append_inj ((List.cons_inj_right _).1 h) (by omega)
  obtain ⟨hmi, h⟩ := List.append_inj ((List.cons_inj_right _).1 h) (by omega)
  exact ⟨hy, hmo, hd, hh, hmi, (List.append_inj ((List.cons_inj_right _).1 h) (by omega)).1⟩

section Printed

variable {n : ℤ}

theorem twoDigits_of_lt (h0 : 0 ≤ n) (h : n < 100) :
    twoDigits n = [digit (n.toNat / 10), digit (n.toNat % 10)] := by
  obtain ⟨n, rfl⟩ := Int.eq_ofNat_of_zero_le h0
  rw [twoDigits, printInt_ofNat, Int.toNat_natCast]
  split_ifs with h9
  · rw [decimal_of_lt (by omega), show n / 10 = 0 by omega, show n % 10 = n by omega]
    rfl
  · rw [decimal_of_le (by omega), decimal_of_lt (by omega)]
    rfl

theorem length_twoDigits (h0 : 0 ≤ n) (h : n < 100) : (twoDigits n).length = 2 := by
  rw [twoDigits_of_lt h0 h]
  rfl

theorem isField_twoDigits (h0 : 0 ≤ n) (h : n < 100) : IsField 2 (twoDigits n) := by
  rw [twoDigits_of_lt h0 h]
  refine ⟨fun c hc => ?_, by simp, by simp⟩
  rcases List.mem_pair.1 hc with rfl | rfl <;> exact isDigit_digit (by omega)

theorem number_twoDigits (h0 : 0 ≤ n) (h : n < 100) : (number (twoDigits n) : ℤ) = n := by
  rw [twoDigits_of_lt h0 h]
  simp only [number, List.foldl_cons, List.foldl_nil]
  rw [toNat_digit (by omega), toNat_digit (by omega)]
  omega

theorem isField_printInt (h0 : 0 ≤ n) (h : n ≤ 9999) : IsField 4 (printInt n) := by
  obtain ⟨n, rfl⟩ := Int.eq_ofNat_of_zero_le h0
  exact ⟨isDigit_of_mem_decimal, decimal_ne_nil n, length_decimal_le (by omega) (by omega)⟩

theorem number_printInt (h0 : 0 ≤ n) : (number (printInt n) : ℤ) = n := by
  obtain ⟨n, rfl⟩ := Int.eq_ofNat_of_zero_le h0
  rw [printInt_ofNat, number_decimal]

end Printed

end Text

/-! ## What is written -/

section Written

variable {t : DateTime}

/-- The day of the calendar. -/
def date (t : DateTime) : Date := .ofDayCount (t.mDate - 1721120)

theorem dayCount_date (t : DateTime) : t.date.dayCount = t.mDate - 1721120 :=
  Date.dayCount_ofDayCount _

/-- The day and the time are in the range of the conversions. -/
structure InRange (t : DateTime) : Prop where
  date_ge : -32044 ≤ t.mDate
  date_lt : 4 * (t.mDate + 32044) + 3 < 2 ^ 31
  time_nonneg : 0 ≤ t.mTime
  time_lt : t.mTime < 2 ^ 31

theorem getHMS_get? {mTime : ℤ} (h0 : 0 ≤ mTime) (h : mTime < 2 ^ 31) :
    (getHMS mTime).1.get? = some (mTime / 1000 / 3600) ∧
      (getHMS mTime).2.1.get? = some (mTime / 1000 / 60 % 60) ∧
      (getHMS mTime).2.2.get? = some (mTime / 1000 % 60) := by
  have hticks : mTime.tdiv 1000 = mTime / 1000 := Int.tdiv_eq_ediv_of_nonneg h0
  have hhour : (mTime / 1000).tdiv 3600 = mTime / 1000 / 3600 :=
    Int.tdiv_eq_ediv_of_nonneg (by omega)
  have hminutes : (mTime / 1000).tdiv 60 = mTime / 1000 / 60 :=
    Int.tdiv_eq_ediv_of_nonneg (by omega)
  have hminute : (mTime / 1000 / 60).tmod 60 = mTime / 1000 / 60 % 60 :=
    Int.tmod_eq_emod_of_nonneg (by omega)
  have hsecond : (mTime / 1000).tmod 60 = mTime / 1000 % 60 :=
    Int.tmod_eq_emod_of_nonneg (by omega)
  simp [getHMS, MILLIS_PER_SEC, SECONDS_PER_HOUR, SECONDS_PER_MIN, MINUTES_PER_HOUR,
    CInt.get?_eq_some_iff, hticks, hhour, hminutes, hminute, hsecond, InInt]
  omega

theorem InRange.year_bounds (h : t.InRange) : -4801 ≤ t.date.year ∧ t.date.year ≤ 1500000 := by
  have hcount := dayCount_date t
  have h0 := t.date.dayOfMarchYear_nonneg
  have h1 := t.date.dayOfMarchYear_le
  have hm := t.date.marchMonth_nonneg
  have hm' := t.date.marchMonth_le
  have hge := h.date_ge
  have hlt := h.date_lt
  rw [t.date.year_eq]
  unfold Date.dayCount at hcount
  omega

theorem InRange.ymd?_eq (h : t.InRange) :
    ymd? t.mDate = some (t.date.year, t.date.month, t.date.day) :=
  (ymd?_eq_some_iff h.date_ge).2 ⟨h.date_lt, t.date, dayCount_date t, rfl⟩

theorem InRange.toTm_eq (h : t.InRange) : t.toTm = some {
    tmYear := t.date.year - 1900
    tmMon := t.date.month - 1
    tmMday := t.date.day
    tmHour := t.mTime / 1000 / 3600
    tmMin := t.mTime / 1000 / 60 % 60
    tmSec := t.mTime / 1000 % 60 } := by
  obtain ⟨hhour, hminute, hsecond⟩ := getHMS_get? h.time_nonneg h.time_lt
  have hbounds := h.year_bounds
  have hyear : ((t.date.year : CInt) - 1900).get? = some (t.date.year - 1900) :=
    CInt.get?_of_fits (by simp [InInt]; omega)
  have hmonth : ((t.date.month : CInt) - 1).get? = some (t.date.month - 1) := by
    have := t.date.month_pos
    have := t.date.month_le
    exact CInt.get?_of_fits (by simp [InInt]; omega)
  simp [toTm, h.ymd?_eq, hyear, hmonth, hhour, hminute, hsecond]

theorem InRange.toXmlDateTime_eq (h : t.InRange) : t.toXmlDateTime =
    some (xmlText (printInt t.date.year) (twoDigits t.date.month) (twoDigits t.date.day)
      (twoDigits (t.mTime / 1000 / 3600)) (twoDigits (t.mTime / 1000 / 60 % 60))
      (twoDigits (t.mTime / 1000 % 60))) := by
  have hbounds := h.year_bounds
  have hyear : (((t.date.year - 1900 : ℤ) : CInt) + 1900).get? = some t.date.year :=
    CInt.get?_eq_some_iff.2 ⟨by simp [InInt]; omega, by simp⟩
  have hmonth : (((t.date.month - 1 : ℤ) : CInt) + 1).get? = some t.date.month := by
    have := t.date.month_pos
    have := t.date.month_le
    exact CInt.get?_eq_some_iff.2 ⟨by simp [InInt]; omega, by simp⟩
  simp only [toXmlDateTime, h.toTm_eq, Option.bind_eq_bind, Option.bind_some, hyear, hmonth]
  simp [xmlText, ascii]

end Written

/-! ## What is read -/

section Read

variable {year mon mday hour min sec : ℤ}

theorem makeHMS_get? (hhour : -24 ≤ hour) (hhour' : hour ≤ 24) (hmin : -60 ≤ min)
    (hmin' : min ≤ 60) (hsec : -60 ≤ sec) (hsec' : sec ≤ 60) :
    (makeHMS hour min sec 0).get? = some (1000 * (3600 * hour + 60 * min + sec)) := by
  rw [CInt.get?_eq_some_iff]
  simp [makeHMS, MILLIS_PER_SEC, SECONDS_PER_HOUR, SECONDS_PER_MIN, InInt]
  omega

theorem julianDate_of_year {d : Date} (hyear : 0 ≤ d.year) (hyear' : d.year ≤ 9999) :
    (julianDate d.year d.month d.day).get? = some (d.dayCount + 1721120) := by
  have hm := d.marchMonth_nonneg
  have hm' := d.marchMonth_le
  have hfrom : FromMarch d := .inl (by omega)
  have hle : d.marchYear ≤ 5000000 := by
    rw [d.year_eq] at hyear'
    omega
  exact CInt.get?_eq_some_iff.2 ⟨julianDate_fits hfrom hle, julianDate_val hfrom⟩

/-- What the constructor makes of its fields. -/
theorem ofXml_xmlText {year mon mday hour min sec : Str} (hyear : IsField 4 year)
    (hmon : IsField 2 mon) (hmday : IsField 2 mday) (hhour : IsField 2 hour)
    (hmin : IsField 2 min) (hsec : IsField 2 sec) :
    ofXml (xmlText year mon mday hour min sec) =
      (julianDate (number year : ℤ) (number mon : ℤ) (number mday : ℤ)).get?.bind fun mDate =>
        (makeHMS (number hour : ℤ) (number min : ℤ) (number sec : ℤ) 0).get?.bind fun mTime =>
          some ⟨mDate, mTime⟩ := by
  unfold ofXml
  rw [takeWhile_ne_zero (zero_notMem_xmlText hyear hmon hmday hhour hmin hsec),
    sscanf_xmlText hyear hmon hmday hhour hmin hsec]
  rfl

/-- The same for the fields of a day of the calendar. -/
theorem ofXml_of_date {year mon mday hour min sec : Str} (hyear : IsField 4 year)
    (hmon : IsField 2 mon) (hmday : IsField 2 mday) (hhour : IsField 2 hour)
    (hmin : IsField 2 min) (hsec : IsField 2 sec) {d : Date} (hy : (number year : ℤ) = d.year)
    (hm : (number mon : ℤ) = d.month) (hd : (number mday : ℤ) = d.day) (hle : d.year ≤ 9999)
    (hh : number hour ≤ 24) (hmi : number min ≤ 60) (hs : number sec ≤ 60) :
    ofXml (xmlText year mon mday hour min sec) = some ⟨d.dayCount + 1721120,
      1000 * (3600 * number hour + 60 * number min + number sec)⟩ := by
  rw [ofXml_xmlText hyear hmon hmday hhour hmin hsec, hy, hm, hd,
    julianDate_of_year (by omega) hle, Option.bind_some, makeHMS_get? (by omega) (by omega)
    (by omega) (by omega) (by omega) (by omega), Option.bind_some]

theorem inRange_of_year {t : DateTime} (hyear : 0 ≤ t.date.year) (hyear' : t.date.year ≤ 9999)
    (h0 : 0 ≤ t.mTime) (hlt : t.mTime < 2 ^ 31) : t.InRange := by
  have hcount := dayCount_date t
  have hday0 := t.date.dayOfMarchYear_nonneg
  have hday1 := t.date.dayOfMarchYear_le
  have hm := t.date.marchMonth_nonneg
  have hm' := t.date.marchMonth_le
  rw [t.date.year_eq] at hyear hyear'
  unfold Date.dayCount at hcount
  exact ⟨by omega, by omega, h0, hlt⟩

/-- A time in the years 0 to 9999 is read as it is written, to the second. -/
theorem ofXml_toXmlDateTime (t : DateTime) (hyear : 0 ≤ t.date.year) (hyear' : t.date.year ≤ 9999)
    (h0 : 0 ≤ t.mTime) (hlt : t.mTime < MILLIS_PER_DAY) :
    ∃ s, t.toXmlDateTime = some s ∧
      ofXml s = some ⟨t.mDate, t.mTime / MILLIS_PER_SEC * MILLIS_PER_SEC⟩ := by
  unfold MILLIS_PER_DAY at hlt
  have hrange := inRange_of_year hyear hyear' h0 (by omega)
  refine ⟨_, hrange.toXmlDateTime_eq, ?_⟩
  have hm := t.date.month_pos
  have hm' := t.date.month_le
  have hd := t.date.day_pos
  have hd' := t.date.day_le_31
  have hhour := number_twoDigits (n := t.mTime / 1000 / 3600) (by omega) (by omega)
  have hmin := number_twoDigits (n := t.mTime / 1000 / 60 % 60) (by omega) (by omega)
  have hsec := number_twoDigits (n := t.mTime / 1000 % 60) (by omega) (by omega)
  rw [ofXml_of_date (isField_printInt hyear hyear') (isField_twoDigits (by omega) (by omega))
      (isField_twoDigits (by omega) (by omega)) (isField_twoDigits (by omega) (by omega))
      (isField_twoDigits (by omega) (by omega)) (isField_twoDigits (by omega) (by omega))
      (number_printInt hyear) (number_twoDigits (by omega) (by omega))
      (number_twoDigits (by omega) (by omega)) hyear' (by omega) (by omega) (by omega),
    hhour, hmin, hsec, dayCount_date]
  have hdate : t.mDate - 1721120 + 1721120 = t.mDate := by omega
  have htime : 1000 * (3600 * (t.mTime / 1000 / 3600) + 60 * (t.mTime / 1000 / 60 % 60)
      + t.mTime / 1000 % 60) = t.mTime / 1000 * 1000 := by
    omega
  rw [hdate, htime]
  rfl

/-- A time of the year 9. -/
theorem ofXml_toXmlDateTime_short_year :
    ∃ s, (⟨1724600, 3723004⟩ : DateTime).toXmlDateTime = some s ∧
      ofXml s = some ⟨1724600, 3723004 / MILLIS_PER_SEC * MILLIS_PER_SEC⟩ :=
  ofXml_toXmlDateTime ⟨1724600, 3723004⟩ (by decide) (by decide) (by decide) (by decide)

end Read

/-! ## What is let through -/

section Valid

/-- The flags for digits and for a character that stands for itself. -/
theorem exists_of_flags {k : ℕ} {f : UInt8} {flags str : Str} (hf : f ≠ 48)
    (hlen : str.length = k + 1 + flags.length)
    (h : ((List.replicate k 48 ++ f :: flags).zip str).all
      (fun (flag, c) => if flag = 48 then isdigit c else decide (flag = c)) = true) :
    ∃ ds rest, str = ds ++ f :: rest ∧ ds.length = k ∧ (∀ c ∈ ds, IsDigit c) ∧
      rest.length = flags.length ∧ (flags.zip rest).all
        (fun (flag, c) => if flag = 48 then isdigit c else decide (flag = c)) = true := by
  induction k generalizing str with
  | zero =>
    rcases str with _ | ⟨c, rest⟩
    · simp at hlen
      omega
    · simp only [List.replicate_zero, List.nil_append, List.zip_cons_cons, List.all_cons,
        if_neg hf, Bool.and_eq_true, decide_eq_true_eq] at h
      refine ⟨[], rest, by rw [h.1]; rfl, rfl, by simp, ?_, h.2⟩
      simp at hlen
      omega
  | succ k ih =>
    rcases str with _ | ⟨c, str⟩
    · simp at hlen
      omega
    · simp only [List.replicate_succ, List.cons_append, List.zip_cons_cons, List.all_cons,
        if_true, Bool.and_eq_true] at h
      obtain ⟨ds, rest, rfl, hk, hds, hrest⟩ := ih (by simp at hlen; omega) h.2
      refine ⟨c :: ds, rest, rfl, by simp [hk], fun d hd => ?_, hrest⟩
      rcases List.mem_cons.1 hd with rfl | hd
      · exact isdigit_iff.1 h.1
      · exact hds d hd

structure ExactField (width : ℕ) (ds : Str) : Prop where
  digits : ∀ c ∈ ds, IsDigit c
  length_eq : ds.length = width

theorem ExactField.isField {width : ℕ} {ds : Str} (h : ExactField width ds) (hpos : 0 < width) :
    IsField width ds :=
  ⟨h.digits, List.length_pos_iff.1 (h.length_eq ▸ hpos), h.length_eq.le⟩

/-- What is let through has its fields in their places, and in the ranges that are looked at. -/
theorem exists_of_isValid {str : Str} (h : isValidXMLDatetime str = true) :
    ∃ year mon mday hour min sec, str = xmlText year mon mday hour min sec ∧
      ExactField 4 year ∧ ExactField 2 mon ∧ ExactField 2 mday ∧ ExactField 2 hour ∧
      ExactField 2 min ∧ ExactField 2 sec ∧ (1 ≤ number mon ∧ number mon ≤ 12) ∧
      (1 ≤ number mday ∧ number mday ≤ 31) ∧ number hour ≤ 24 ∧ number min ≤ 60 ∧
      number sec ≤ 60 := by
  unfold isValidXMLDatetime at h
  split_ifs at h with hlen hflags
  rw [not_not] at hlen
  have hflag : ascii "0000-00-00T00:00:00Z" = List.replicate 4 48 ++ 45 :: (List.replicate 2 48 ++
      45 :: (List.replicate 2 48 ++ 84 :: (List.replicate 2 48 ++ 58 :: (List.replicate 2 48 ++
      58 :: (List.replicate 2 48 ++ 90 :: []))))) := by decide
  rw [hflag] at hflags
  obtain ⟨year, _, rfl, hyear, hyear', hlen, hflags⟩ :=
    exists_of_flags (by decide) (by simpa using hlen) hflags
  obtain ⟨mon, _, rfl, hmon, hmon', hlen, hflags⟩ := exists_of_flags (by decide) hlen hflags
  obtain ⟨mday, _, rfl, hmday, hmday', hlen, hflags⟩ := exists_of_flags (by decide) hlen hflags
  obtain ⟨hour, _, rfl, hhour, hhour', hlen, hflags⟩ := exists_of_flags (by decide) hlen hflags
  obtain ⟨min, _, rfl, hmin, hmin', hlen, hflags⟩ := exists_of_flags (by decide) hlen hflags
  obtain ⟨sec, rest, rfl, hsec, hsec', hlen, -⟩ := exists_of_flags (by decide) hlen hflags
  obtain rfl := List.length_eq_zero_iff.1 hlen
  have hfields : ExactField 4 year ∧ ExactField 2 mon ∧ ExactField 2 mday ∧ ExactField 2 hour ∧
      ExactField 2 min ∧ ExactField 2 sec :=
    ⟨⟨hyear', hyear⟩, ⟨hmon', hmon⟩, ⟨hmday', hmday⟩, ⟨hhour', hhour⟩, ⟨hmin', hmin⟩,
      ⟨hsec', hsec⟩⟩
  refine ⟨year, mon, mday, hour, min, sec, rfl, ?_⟩
  obtain ⟨hyear, hmon, hmday, hhour, hmin, hsec⟩ := hfields
  have hyear4 := hyear.isField (by omega)
  have hmon2 := hmon.isField (by omega)
  have hmday2 := hmday.isField (by omega)
  have hhour2 := hhour.isField (by omega)
  have hmin2 := hmin.isField (by omega)
  have hsec2 := hsec.isField (by omega)
  have hwhole := takeWhile_ne_zero (zero_notMem_xmlText hyear4 hmon2 hmday2 hhour2 hmin2 hsec2)
  have hscan := sscanf_xmlText hyear4 hmon2 hmday2 hhour2 hmin2 hsec2
  unfold xmlText at hwhole hscan
  rw [hwhole, hscan] at h
  dsimp only at h
  split_ifs at h
  refine ⟨hyear, hmon, hmday, hhour, hmin, hsec, ?_, ?_, ?_, ?_, ?_⟩ <;> omega

theorem toXmlDateTime_of_date {d : Date} {hour min sec : ℤ} (hyear : 0 ≤ d.year)
    (hyear' : d.year ≤ 9999) (hhour : 0 ≤ hour) (hhour' : hour ≤ 24) (hmin : 0 ≤ min)
    (hmin' : min ≤ 59) (hsec : 0 ≤ sec) (hsec' : sec ≤ 59) :
    (⟨d.dayCount + 1721120, 1000 * (3600 * hour + 60 * min + sec)⟩ : DateTime).toXmlDateTime =
      some (xmlText (printInt d.year) (twoDigits d.month) (twoDigits d.day) (twoDigits hour)
        (twoDigits min) (twoDigits sec)) := by
  have hdate : (⟨d.dayCount + 1721120, 1000 * (3600 * hour + 60 * min + sec)⟩ : DateTime).date =
      d := by
    rw [date, Int.add_sub_cancel, Date.ofDayCount_dayCount]
  rw [(inRange_of_year (by rw [hdate]; exact hyear) (by rw [hdate]; exact hyear')
    (by dsimp only; omega) (by dsimp only; omega)).toXmlDateTime_eq, hdate]
  dsimp only
  rw [show 1000 * (3600 * hour + 60 * min + sec) / 1000 / 3600 = hour by omega,
    show 1000 * (3600 * hour + 60 * min + sec) / 1000 / 60 % 60 = min by omega,
    show 1000 * (3600 * hour + 60 * min + sec) / 1000 % 60 = sec by omega]

theorem printInt_number {ds : Str} (h : ExactField 4 ds) (hge : 1000 ≤ number ds) :
    printInt (number ds) = ds := by
  rw [printInt_ofNat]
  refine decimal_number h.digits (h.isField (by omega)).ne_nil fun hzero => ?_
  obtain ⟨ds', rfl⟩ := List.head?_eq_some_iff.1 hzero
  have hlt := number_lt fun c hc => h.digits c (List.mem_cons_of_mem 48 hc)
  have hlen := h.length_eq
  simp only [List.length_cons] at hlen
  rw [show ds'.length = 3 by omega] at hlt
  have : number (48 :: ds') = number ds' := rfl
  omega

theorem twoDigits_number {ds : Str} (h : ExactField 2 ds) : twoDigits (number ds) = ds := by
  obtain ⟨a, b, rfl⟩ := List.length_eq_two.1 h.length_eq
  have ha := h.digits a (by simp)
  have hb := h.digits b (by simp)
  have hnum : number [a, b] = 10 * (a.toNat - 48) + (b.toNat - 48) := by simp [number]
  have ha' := ha.2
  have hb' := hb.2
  rw [twoDigits_of_lt (by omega) (by omega), Int.toNat_natCast,
    show number [a, b] / 10 = a.toNat - 48 by omega,
    show number [a, b] % 10 = b.toNat - 48 by omega, digit_toNat_sub ha, digit_toNat_sub hb]

theorem julianDate_val_day (year month day : ℤ) : (julianDate year month day).val =
    (julianDate year month (1 : ℤ)).val + (day - 1) := by
  unfold julianDate
  simp only [CInt.val_add, CInt.val_sub, CInt.val_of]
  omega

/-- The number of `width` characters from the place on. -/
def field (str : Str) (place width : ℕ) : ℕ := number ((str.drop place).take width)

/-- The date is one of the calendar in the years from 1000 on, and no minute or second is 60. -/
def Canonical (str : Str) : Prop :=
  1000 ≤ field str 0 4 ∧ (field str 8 2 : ℤ) ≤ daysInMonth (field str 0 4) (field str 5 2) ∧
    field str 14 2 ≤ 59 ∧ field str 17 2 ≤ 59

theorem field_append {place width : ℕ} (pre ds post : Str) (hpre : pre.length = place)
    (hds : ds.length = width) : field (pre ++ (ds ++ post)) place width = number ds := by
  rw [field, List.drop_left' hpre, List.take_left' hds]

section Fields

variable {year mon mday hour min sec : Str} (hyear : ExactField 4 year) (hmon : ExactField 2 mon)
  (hmday : ExactField 2 mday) (hhour : ExactField 2 hour) (hmin : ExactField 2 min)
  (hsec : ExactField 2 sec)
include hyear hmon hmday hhour hmin hsec

theorem canonical_xmlText : Canonical (xmlText year mon mday hour min sec) ↔
    1000 ≤ number year ∧ (number mday : ℤ) ≤ daysInMonth (number year) (number mon) ∧
      number min ≤ 59 ∧ number sec ≤ 59 := by
  have h0 : field _ 0 4 = number year := field_append [] year
    (45 :: (mon ++ 45 :: (mday ++ 84 :: (hour ++ 58 :: (min ++ 58 :: (sec ++ [90])))))) rfl
    hyear.length_eq
  have h5 : field _ 5 2 = number mon := field_append (year ++ [45]) mon
    (45 :: (mday ++ 84 :: (hour ++ 58 :: (min ++ 58 :: (sec ++ [90])))))
    (by simp [hyear.length_eq]) hmon.length_eq
  have h8 : field _ 8 2 = number mday := field_append (year ++ 45 :: (mon ++ [45])) mday
    (84 :: (hour ++ 58 :: (min ++ 58 :: (sec ++ [90]))))
    (by simp [hyear.length_eq, hmon.length_eq]) hmday.length_eq
  have h14 : field _ 14 2 = number min := field_append
    (year ++ 45 :: (mon ++ 45 :: (mday ++ 84 :: (hour ++ [58])))) min (58 :: (sec ++ [90]))
    (by simp [hyear.length_eq, hmon.length_eq, hmday.length_eq, hhour.length_eq]) hmin.length_eq
  have h17 : field _ 17 2 = number sec := field_append
    (year ++ 45 :: (mon ++ 45 :: (mday ++ 84 :: (hour ++ 58 :: (min ++ [58]))))) sec [90]
    (by simp [hyear.length_eq, hmon.length_eq, hmday.length_eq, hhour.length_eq, hmin.length_eq])
    hsec.length_eq
  simp only [List.nil_append, List.append_assoc, List.cons_append] at h0 h5 h8 h14 h17
  unfold Canonical xmlText
  rw [h0, h5, h8, h14, h17]

/-- A canonical text is written again. -/
theorem writes_of_canonical (hm1 : 1 ≤ number mon) (hm12 : number mon ≤ 12)
    (hd1 : 1 ≤ number mday) (hh : number hour ≤ 24)
    (hc : Canonical (xmlText year mon mday hour min sec)) :
    ∃ t, ofXml (xmlText year mon mday hour min sec) = some t ∧
      t.toXmlDateTime = some (xmlText year mon mday hour min sec) := by
  rw [canonical_xmlText hyear hmon hmday hhour hmin hsec] at hc
  obtain ⟨hge, hday, hmin59, hsec59⟩ := hc
  have hlt := number_lt hyear.digits
  rw [hyear.length_eq] at hlt
  obtain ⟨d, hy, hm, hd⟩ : ∃ d : Date, (number year : ℤ) = d.year ∧ (number mon : ℤ) = d.month ∧
      (number mday : ℤ) = d.day :=
    ⟨⟨number year, number mon, number mday, by omega, by omega, by omega, hday⟩, rfl, rfl, rfl⟩
  refine ⟨_, ofXml_of_date (hyear.isField (by omega)) (hmon.isField (by omega))
    (hmday.isField (by omega)) (hhour.isField (by omega)) (hmin.isField (by omega))
    (hsec.isField (by omega)) hy hm hd (by omega) hh (by omega) (by omega), ?_⟩
  rw [toXmlDateTime_of_date (by omega) (by omega) (by omega) (by omega) (by omega) (by omega)
    (by omega) (by omega), ← hy, ← hm, ← hd, printInt_number hyear hge, twoDigits_number hmon,
    twoDigits_number hmday, twoDigits_number hhour, twoDigits_number hmin, twoDigits_number hsec]

/-- The day that is read is counted on from the first of its month. -/
theorem date_time_of_read (hm1 : 1 ≤ number mon) (hm12 : number mon ≤ 12)
    (hh : number hour ≤ 24) (hmi : number min ≤ 60) (hs : number sec ≤ 60) {t : DateTime}
    (hread : ofXml (xmlText year mon mday hour min sec) = some t) :
    ∃ d : Date, d.year = number year ∧ d.month = number mon ∧ d.day = 1 ∧
      t.mDate = d.dayCount + 1721120 + (number mday - 1) ∧
      t.mTime = 1000 * (3600 * number hour + 60 * number min + number sec) := by
  have hlt := number_lt hyear.digits
  rw [hyear.length_eq] at hlt
  rw [ofXml_xmlText (hyear.isField (by omega)) (hmon.isField (by omega))
    (hmday.isField (by omega)) (hhour.isField (by omega)) (hmin.isField (by omega))
    (hsec.isField (by omega)), Option.bind_eq_some_iff] at hread
  obtain ⟨mDate, hdate, hread⟩ := hread
  rw [makeHMS_get? (by omega) (by omega) (by omega) (by omega) (by omega) (by omega),
    Option.bind_some, Option.some.injEq] at hread
  obtain ⟨-, rfl⟩ := CInt.get?_eq_some_iff.1 hdate
  subst hread
  obtain ⟨d, hy, hm, hd⟩ : ∃ d : Date, d.year = number year ∧ d.month = number mon ∧ d.day = 1 :=
    ⟨⟨number year, number mon, 1, by omega, by omega, by omega,
      le_trans (by omega) (le_daysInMonth _ _)⟩, rfl, rfl, rfl⟩
  have hfirst := julianDate_of_year (d := d) (by omega) (by omega)
  rw [CInt.get?_eq_some_iff, hy, hm, hd] at hfirst
  refine ⟨d, hy, hm, hd, ?_, rfl⟩
  rw [julianDate_val_day, hfirst.2]

/-- The fields that are written are the numbers of the day and of the time. -/
theorem numbers_of_written {t : DateTime} (hrange : t.InRange) (hyear0 : 0 ≤ t.date.year)
    (hhour' : t.mTime / 1000 / 3600 < 100)
    (hwrite : t.toXmlDateTime = some (xmlText year mon mday hour min sec)) :
    1000 ≤ number year ∧ number year = t.date.year ∧ number mon = t.date.month ∧
      number mday = t.date.day ∧ number min = t.mTime / 1000 / 60 % 60 ∧
      number sec = t.mTime / 1000 % 60 := by
  rw [hrange.toXmlDateTime_eq, Option.some.injEq] at hwrite
  have htime := hrange.time_nonneg
  have hmonth := t.date.month_pos
  have hmonth' := t.date.month_le
  have hday := t.date.day_pos
  have hday' := t.date.day_le_31
  obtain ⟨eyear, emon, emday, -, emin, esec⟩ := xmlText_inj hyear.length_eq hmon.length_eq
    hmday.length_eq hhour.length_eq hmin.length_eq hsec.length_eq
    (length_twoDigits (by omega) (by omega)) (length_twoDigits (by omega) (by omega))
    (length_twoDigits (by omega) (by omega)) (length_twoDigits (by omega) (by omega))
    (length_twoDigits (by omega) (by omega)) hwrite
  have nyear : number year = t.date.year := by rw [← eyear, number_printInt hyear0]
  have hge : 1000 ≤ number year := by
    -- a year below 1000 is written in fewer than the four digits that were read
    by_contra hshort
    have hlen := hyear.length_eq
    rw [← eyear, ← nyear, printInt_ofNat] at hlen
    have hle := length_decimal_le (k := 3) (n := number year) (by omega) (by omega)
    omega
  refine ⟨hge, nyear, ?_, ?_, ?_, ?_⟩
  · rw [← emon, number_twoDigits (by omega) (by omega)]
  · rw [← emday, number_twoDigits (by omega) (by omega)]
  · rw [← emin, number_twoDigits (by omega) (by omega)]
  · rw [← esec, number_twoDigits (by omega) (by omega)]

/-- A text that is written again is canonical. -/
theorem canonical_of_writes (hm1 : 1 ≤ number mon) (hm12 : number mon ≤ 12)
    (hd1 : 1 ≤ number mday) (hd31 : number mday ≤ 31) (hh : number hour ≤ 24)
    (hmi : number min ≤ 60) (hs : number sec ≤ 60) {t : DateTime}
    (hread : ofXml (xmlText year mon mday hour min sec) = some t)
    (hwrite : t.toXmlDateTime = some (xmlText year mon mday hour min sec)) :
    Canonical (xmlText year mon mday hour min sec) := by
  obtain ⟨d, hy, hm, hd, hdate, htime⟩ :=
    date_time_of_read hyear hmon hmday hhour hmin hsec hm1 hm12 hh hmi hs hread
  have hlt := number_lt hyear.digits
  rw [hyear.length_eq] at hlt
  have hcount := dayCount_date t
  have hd0 := d.year_nonneg_iff
  have hd9999 := d.year_le_iff
  have hyear0 : 0 ≤ t.date.year := t.date.year_nonneg_iff.2 (by omega)
  have hrange : t.InRange := ⟨by omega, by omega, by omega, by omega⟩
  obtain ⟨hge, nyear, nmon, nmday, nmin, nsec⟩ :=
    numbers_of_written hyear hmon hmday hhour hmin hsec hrange hyear0 (by omega) hwrite
  rw [canonical_xmlText hyear hmon hmday hhour hmin hsec]
  refine ⟨hge, ?_, by omega, by omega⟩
  rw [nyear, nmon, nmday]
  exact t.date.day_le

end Fields

/-- What is let through is written again as it was if and only if it is canonical. -/
theorem prints_back_iff {str : Str} (hvalid : isValidXMLDatetime str = true) :
    (∃ t, ofXml str = some t ∧ t.toXmlDateTime = some str) ↔ Canonical str := by
  obtain ⟨year, mon, mday, hour, min, sec, rfl, hyear, hmon, hmday, hhour, hmin, hsec,
    ⟨hm1, hm12⟩, ⟨hd1, hd31⟩, hh, hmi, hs⟩ := exists_of_isValid hvalid
  constructor
  · rintro ⟨t, hread, hwrite⟩
    exact canonical_of_writes hyear hmon hmday hhour hmin hsec hm1 hm12 hd1 hd31 hh hmi hs hread
      hwrite
  · exact writes_of_canonical hyear hmon hmday hhour hmin hsec hm1 hm12 hd1 hh

/-- A leap day at the end of its last hour. -/
theorem prints_back_iff_leap_day :
    (∃ t, ofXml (ascii "2000-02-29T23:59:59Z") = some t ∧
      t.toXmlDateTime = some (ascii "2000-02-29T23:59:59Z")) ↔
    Canonical (ascii "2000-02-29T23:59:59Z") :=
  prints_back_iff (by decide)

/-- The last day of February in a common year. -/
theorem prints_back_false : ¬ ∀ str, isValidXMLDatetime str = true →
    ∃ t, ofXml str = some t ∧ t.toXmlDateTime = some str := by
  intro h
  obtain ⟨t, hread, hwrite⟩ := h (ascii "2001-02-29T00:00:00Z") (by decide)
  have ht : ofXml (ascii "2001-02-29T00:00:00Z") = some ⟨2451970, 0⟩ := by decide
  obtain rfl : (⟨2451970, 0⟩ : DateTime) = t := Option.some.inj (ht.symm.trans hread)
  exact absurd hwrite (by decide)

end Valid

end DateTime

end Longda
