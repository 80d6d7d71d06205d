import Longda.Time.XmlDateTime

/-!
# Durations as text

A duration is written with a mark after each of its numbers, `P1Y2M3DT4H5M6S`, and any of the
numbers may be left out. `parseDuration` looks for the marks in their order and reads the number
before each, where the `M` of the months is told from that of the minutes by the place of the `T`.
It reads every duration that is so written, where the numbers and the places of the marks are
`int`s (`parseDuration_iff`).
-/

namespace Longda

open Lib

namespace DateTime

/-- `find`, kept in an `int`. What a place of a character that is none is converted to is left to
the implementation, so there is no result. -/
def find (durStr : Str) (c : UInt8) (index : ℕ) : Option ℤ :=
  match (durStr.drop index).idxOf? c with
  | none => some (-1)
  | some n => CInt.get? ((index + n : ℕ) : ℤ)

/-- The number from `index` on. -/
def readNumber (durStr : Str) (index : ℕ) (ind : ℤ) : Option ℤ :=
  let (sign, index) : ℤ × ℕ := if durStr[index]? = some 45 then (-1, index + 1) else (1, index)
  let n := match scanInt none (((durStr.drop index).take ind.toNat).takeWhile (· ≠ 0)) with
    | none => 0
    | some (n, _) => n
  ((n : CInt) * (sign : CInt)).get?

/-- The number before the mark at `ind`, and the place after the mark. -/
def readPart (durStr : Str) (index : ℕ) (ind : ℤ) : Option (ℤ × ℕ) := do
  let n ← readNumber durStr index ind
  let index ← ((ind : CInt) + 1).get?
  some (n, index.toNat)

/-- The number that is marked by `c`. -/
def parsePart (durStr : Str) (c : UInt8) (index : ℕ) : Option (ℤ × ℕ) := do
  let ind ← find durStr c index
  if ind ≠ -1 then readPart durStr index ind else some (0, index)

/-- The months, whose mark is before the `T`. -/
def parseMon (durStr : Str) (indT : ℤ) (index : ℕ) : Option (ℤ × ℕ) := do
  let indM ← find durStr 77 index
  if indM ≠ -1 ∧ (indT > -1 ∧ indM < indT ∨ indT = -1) then readPart durStr index indM
  else some (0, index)

/-- The seconds, after which nothing is read. -/
def parseSec (durStr : Str) (index : ℕ) : Option ℤ := do
  let indS ← find durStr 83 index
  if indS ≠ -1 then readNumber durStr index indS else some 0

def parseDate (durStr : Str) (indT : ℤ) : Option (ℤ × ℤ × ℤ) := do
  let (tmYear, index) ← parsePart durStr 89 1
  let (tmMon, index) ← parseMon durStr indT index
  let (tmMday, _) ← parsePart durStr 68 index
  some (tmYear, tmMon, tmMday)

def parseTime (durStr : Str) (indT : ℤ) : Option (ℤ × ℤ × ℤ) :=
  if indT = -1 then some (0, 0, 0)
  else do
    let index ← ((indT : CInt) + 1).get?
    let (tmHour, index) ← parsePart durStr 72 index.toNat
    let (tmMin, index) ← parsePart durStr 77 index
    let tmSec ← parseSec durStr index
    some (tmHour, tmMin, tmSec)

def parseDuration (durStr : Str) : Option Tm :=
  if durStr[0]? ≠ some 80 then some ⟨0, 0, 0, 0, 0, 0⟩
  else do
    let indT ← find durStr 84 0
    let (tmYear, tmMon, tmMday) ← parseDate durStr indT
    let (tmHour, tmMin, tmSec) ← parseTime durStr indT
    some ⟨tmYear, tmMon, tmMday, tmHour, tmMin, tmSec⟩

/-! ## Durations and how they are written -/

/-- A character that no number is written with. -/
def IsMark (c : UInt8) : Prop := ¬ IsDigit c ∧ c ≠ 45

/-- A number in decimal, with or without a sign. -/
structure Numeral where
  neg : Bool
  digits : Str
  isDigit : ∀ c ∈ digits, IsDigit c
  ne_nil : digits ≠ []

namespace Numeral

/-- A number as it is printed. -/
def ofInt (n : ℤ) : Numeral :=
  ⟨decide (n < 0), decimal n.natAbs, isDigit_of_mem_decimal, decimal_ne_nil _⟩

variable (n : Numeral)

def text : Str := (if n.neg then [45] else []) ++ n.digits

def val : ℤ := if n.neg then -number n.digits else number n.digits

theorem notMem_text {c : UInt8} (hc : IsMark c) : c ∉ n.text := by
  unfold text
  rw [List.mem_append]
  rintro (h | h)
  · split_ifs at h
    · exact hc.2 (List.mem_singleton.1 h)
    · cases h
  · exact hc.1 (n.isDigit c h)

end Numeral

/-- `P[nY][nM][nD][T[nH][nM][nS]]`. -/
structure DurationText where
  years : Option Numeral
  months : Option Numeral
  days : Option Numeral
  time : Option (Option Numeral × Option Numeral × Option Numeral)

def partText (x : Option Numeral) (c : UInt8) : Str := x.elim [] fun n => n.text ++ [c]

def partVal (x : Option Numeral) : ℤ := x.elim 0 Numeral.val

namespace DurationText

variable (f : DurationText)

def hours : Option Numeral := f.time.bind fun time => time.1

def minutes : Option Numeral := f.time.bind fun time => time.2.1

def seconds : Option Numeral := f.time.bind fun time => time.2.2

def timeText : Str := f.time.elim [] fun (hours, minutes, seconds) =>
  84 :: (partText hours 72 ++ (partText minutes 77 ++ partText seconds 83))

def text : Str := 80 :: (partText f.years 89 ++ (partText f.months 77 ++ (partText f.days 68
  ++ f.timeText)))

/-- The numbers of the duration, as a `tm`. -/
def tm : Tm where
  tmYear := partVal f.years
  tmMon := partVal f.months
  tmMday := partVal f.days
  tmHour := partVal f.hours
  tmMin := partVal f.minutes
  tmSec := partVal f.seconds

end DurationText

/-- The numbers that can be read. -/
def NumFits (x : Option Numeral) : Prop := ∀ n ∈ x, number n.digits < 2 ^ 31

theorem partVal_bounds {x : Option Numeral} (h : NumFits x) :
    -2 ^ 31 < partVal x ∧ partVal x < 2 ^ 31 := by
  rcases x with _ | n
  · exact ⟨by decide, by decide⟩
  · have hn := h n rfl
    have hval : partVal (some n) = if n.neg then -(number n.digits : ℤ) else number n.digits := rfl
    rw [hval]
    split_ifs <;> omega

theorem inInt_partVal {x : Option Numeral} (h : NumFits x) : InInt (partVal x) := by
  have hbounds := partVal_bounds h
  unfold InInt
  omega

/-- The numbers and the places of the marks are `int`s, and so is each place after a mark at which
the next is looked for. -/
structure DurationText.Fits (f : DurationText) : Prop where
  years : NumFits f.years
  months : NumFits f.months
  days : NumFits f.days
  hours : NumFits f.hours
  minutes : NumFits f.minutes
  seconds : NumFits f.seconds
  length : f.text.length < 2 ^ 31 + if f.seconds.isSome then 1 else 0

theorem notMem_partText {x : Option Numeral} {c c' : UInt8} (hc : IsMark c) (hne : c ≠ c') :
    c ∉ partText x c' := by
  rcases x with _ | n
  · exact List.not_mem_nil
  · simp [partText, n.notMem_text hc, hne]

/-! ## Numbers and marks that are read -/

section Read

variable {durStr rest : Str} {c : UInt8} {index : ℕ} {n : Numeral}

theorem find_eq_of_notMem (hdrop : durStr.drop index = rest) (hc : c ∉ rest) :
    find durStr c index = some (-1) := by
  rw [find, hdrop, List.idxOf?_eq_none_iff.2 hc]

theorem find_eq_of_append {pre : Str} (hdrop : durStr.drop index = pre ++ c :: rest)
    (hc : c ∉ pre) : find durStr c index = CInt.get? ((index + pre.length : ℕ) : ℤ) := by
  have hidx : (pre ++ c :: rest).idxOf? c = some pre.length := by
    refine List.idxOf?_eq_some_iff.2 ⟨by simp, by simp, fun j hj h => ?_⟩
    rw [List.getElem_append_left hj] at h
    exact hc (h ▸ List.getElem_mem hj)
  rw [find, hdrop, hidx]

/-- Every place in a text of so many characters is an `int`. -/
theorem find_isSome (hlen : durStr.length ≤ 2 ^ 31) : ∃ ind, find durStr c index = some ind := by
  unfold find
  rcases h : (durStr.drop index).idxOf? c with _ | k
  · exact ⟨_, rfl⟩
  · obtain ⟨hk, -⟩ := List.idxOf?_eq_some_iff.1 h
    rw [List.length_drop] at hk
    refine ⟨((index + k : ℕ) : ℤ), CInt.get?_of_fits ?_⟩
    simp only [CInt.fits_of, InInt]
    omega

theorem scanInt_substr (rest : Str) (count : ℕ) {ds : Str} (hds : ∀ c ∈ ds, IsDigit c)
    (hne : ds ≠ []) (hc : ¬ IsDigit c) (hcount : ds.length ≤ count) :
    ∃ rest', scanInt none (((ds ++ c :: rest).take count).takeWhile (· ≠ 0)) =
      some ((number ds : ℤ), rest') := by
  have hzero : ∀ d ∈ ds, decide (d ≠ 0) = true := fun d hd =>
    decide_eq_true fun h => absurd (h ▸ hds d hd) (by decide)
  rw [List.take_append, List.take_of_length_le hcount, List.takeWhile_append_of_pos hzero,
    scanInt_none]
  refine ⟨_, scanInt_digits hds hne (by simp) (.inr fun d hd => ?_)⟩
  rcases hk : count - ds.length with _ | k
  · simp [hk] at hd
  · rw [hk, List.take_succ_cons, List.takeWhile_cons] at hd
    split_ifs at hd
    · exact Option.some.inj hd ▸ hc
    · cases hd

theorem readNumber_iff {ind : ℤ} {r : ℤ} (hdrop : durStr.drop index = n.text ++ c :: rest)
    (hc : ¬ IsDigit c) (hind : (n.text.length : ℤ) ≤ ind) :
    readNumber durStr index ind = some r ↔ number n.digits < 2 ^ 31 ∧ r = n.val := by
  have hhead : durStr[index]? = (n.text ++ c :: rest).head? := by
    rw [← hdrop, List.head?_drop]
  unfold Numeral.text at hdrop hhead hind
  unfold readNumber Numeral.val
  by_cases hneg : n.neg = true
  · simp only [hneg, if_true, List.cons_append, List.nil_append, List.head?_cons] at hdrop hhead ⊢
    have hdrop' : durStr.drop (index + 1) = n.digits ++ c :: rest := by
      rw [← List.drop_drop, hdrop]
      rfl
    obtain ⟨rest', hscan⟩ := scanInt_substr rest ind.toNat n.isDigit n.ne_nil hc
      (by simp [hneg] at hind; omega)
    simp only [hhead, if_true, hdrop', hscan, CInt.get?_eq_some_iff]
    simp [InInt]
    omega
  · rw [Bool.not_eq_true] at hneg
    obtain ⟨d, ds, hds⟩ := List.exists_cons_of_ne_nil n.ne_nil
    have hd : d ≠ 45 := by
      rintro rfl
      exact absurd (n.isDigit 45 (by simp [hds])) (by decide)
    simp only [hneg, Bool.false_eq_true, if_false, List.nil_append] at hdrop hhead hind ⊢
    have hplus : ¬ durStr[index]? = some 45 := by
      rw [hhead, hds]
      simpa using hd
    obtain ⟨rest', hscan⟩ := scanInt_substr rest ind.toNat n.isDigit n.ne_nil hc
      (by omega)
    simp only [hplus, if_false, hdrop, hscan, CInt.get?_eq_some_iff]
    simp [InInt]
    omega

variable {x : Option Numeral} {r : ℤ × ℕ}

theorem readPart_iff (hdrop : durStr.drop index = n.text ++ c :: rest) (hc : IsMark c) :
    readPart durStr index (index + n.text.length : ℕ) = some r ↔
      number n.digits < 2 ^ 31 ∧ index + (n.text.length + 1) < 2 ^ 31 ∧
        r = (n.val, index + (n.text.length + 1)) := by
  simp only [readPart, Option.bind_eq_bind, Option.bind_eq_some_iff,
    readNumber_iff hdrop hc.1 (show (n.text.length : ℤ) ≤ (index + n.text.length : ℕ) by omega),
    CInt.get?_eq_some_iff, Option.some.injEq]
  constructor
  · rintro ⟨_, ⟨hnum, rfl⟩, _, ⟨hfits, rfl⟩, hr⟩
    subst hr
    simp [InInt] at hfits ⊢
    omega
  · rintro ⟨hnum, hlt, rfl⟩
    refine ⟨_, ⟨hnum, rfl⟩, _, ⟨?_, rfl⟩, ?_⟩
    · simp [InInt]
      omega
    · simp
      omega

theorem length_partText_none : (partText none c).length = 0 := rfl

theorem length_partText_some : (partText (some n) c).length = n.text.length + 1 := by
  simp [partText]

theorem parsePart_iff (hindex : index < 2 ^ 31) (hdrop : durStr.drop index = partText x c ++ rest)
    (hc : IsMark c) (hrest : c ∉ rest) : parsePart durStr c index = some r ↔
      NumFits x ∧ index + (partText x c).length < 2 ^ 31 ∧
        r = (partVal x, index + (partText x c).length) := by
  unfold parsePart
  rcases x with _ | n
  · rw [find_eq_of_notMem hdrop hrest]
    simpa [NumFits, partText, partVal, eq_comm] using fun _ => hindex
  · have hdrop' : durStr.drop index = n.text ++ c :: rest := by simpa [partText] using hdrop
    have hread := readPart_iff hdrop' hc (r := r)
    rw [find_eq_of_append hdrop' (n.notMem_text hc), length_partText_some]
    simp only [Option.bind_eq_bind, Option.bind_eq_some_iff, CInt.get?_eq_some_iff]
    constructor
    · rintro ⟨_, ⟨hfits, rfl⟩, h⟩
      rw [CInt.val_of, if_pos (by omega), hread] at h
      simpa [NumFits, partVal] using h
    · rintro ⟨hnum, hlt, hr⟩
      refine ⟨_, ⟨by simp [InInt]; omega, rfl⟩, ?_⟩
      rw [CInt.val_of, if_pos (by omega), hread]
      exact ⟨hnum n rfl, hlt, hr⟩

theorem parseSec_iff {n : ℤ} (hdrop : durStr.drop index = partText x 83) :
    parseSec durStr index = some n ↔
      NumFits x ∧ (x.isSome → index + (partText x 83).length ≤ 2 ^ 31) ∧ n = partVal x := by
  have hc : IsMark 83 := ⟨by decide, by decide⟩
  unfold parseSec
  rcases x with _ | m
  · rw [find_eq_of_notMem hdrop (List.not_mem_nil)]
    simp [NumFits, partVal, eq_comm]
  · have hread := readNumber_iff (r := n) hdrop hc.1
      (show (m.text.length : ℤ) ≤ (index + m.text.length : ℕ) by omega)
    rw [find_eq_of_append hdrop (m.notMem_text hc), length_partText_some]
    simp only [Option.bind_eq_bind, Option.bind_eq_some_iff, CInt.get?_eq_some_iff]
    constructor
    · rintro ⟨_, ⟨hfits, rfl⟩, h⟩
      rw [CInt.val_of, if_pos (by omega), hread] at h
      simp [InInt] at hfits
      refine ⟨?_, fun _ => by omega, h.2⟩
      simpa [NumFits] using h.1
    · rintro ⟨hnum, hle, hn⟩
      have hle' := hle rfl
      refine ⟨_, ⟨by simp [InInt]; omega, rfl⟩, ?_⟩
      rw [CInt.val_of, if_pos (by omega), hread]
      exact ⟨hnum m rfl, hn⟩

theorem parseMon_without_time (durStr : Str) (index : ℕ) :
    parseMon durStr (-1) index = parsePart durStr 77 index := by
  simp [parseMon, parsePart]

/-- A mark is found after what does not have it. -/
theorem find_ge {pre : Str} {ind : ℤ} (hdrop : durStr.drop index = pre ++ rest) (hc : c ∉ pre)
    (hfind : find durStr c index = some ind) : ind = -1 ∨ index + pre.length ≤ ind := by
  unfold find at hfind
  rcases h : (durStr.drop index).idxOf? c with _ | k
  · rw [h] at hfind
    exact .inl (Option.some.inj hfind).symm
  · rw [h] at hfind
    obtain ⟨-, rfl⟩ := CInt.get?_eq_some_iff.1 hfind
    obtain ⟨hk, hget, -⟩ := List.idxOf?_eq_some_iff.1 h
    refine .inr ?_
    by_contra hlt
    simp only [CInt.val_of] at hlt
    simp only [hdrop] at hget
    rw [List.getElem_append_left (by omega)] at hget
    exact hc (hget ▸ List.getElem_mem _)

/-- The `M` of the minutes, after the `T`, is not taken for that of the months. -/
theorem parseMon_with_time {days : Option Numeral} {indT : ℤ} (hindex : index < 2 ^ 31)
    (hdrop : durStr.drop index = partText x 77 ++ (partText days 68 ++ 84 :: rest))
    (hindT : indT = index + (partText x 77).length + (partText days 68).length) :
    (∀ r, parseMon durStr indT index = some r → NumFits x ∧
      index + (partText x 77).length < 2 ^ 31 ∧
      r = (partVal x, index + (partText x 77).length)) ∧
    (durStr.length ≤ 2 ^ 31 → NumFits x → index + (partText x 77).length < 2 ^ 31 →
      parseMon durStr indT index = some (partVal x, index + (partText x 77).length)) := by
  have hc : IsMark 77 := ⟨by decide, by decide⟩
  have hbefore : (77 : UInt8) ∉ partText days 68 ++ [84] := by
    simpa using notMem_partText hc (by decide)
  rcases x with _ | n
  · have hdrop' : durStr.drop index = (partText days 68 ++ [84]) ++ rest := by
      simpa [partText] using hdrop
    have hmon : ∀ ind, find durStr 77 index = some ind →
        ¬ (ind ≠ -1 ∧ (indT > -1 ∧ ind < indT ∨ indT = -1)) := by
      intro ind hfind
      have hge := find_ge hdrop' hbefore hfind
      simp [length_partText_none] at hge hindT
      omega
    unfold parseMon
    refine ⟨fun r h => ?_, fun hlen _ _ => ?_⟩
    · obtain ⟨ind, hfind, h⟩ := Option.bind_eq_some_iff.1 h
      rw [if_neg (hmon ind hfind)] at h
      exact ⟨by simp [NumFits], hindex, (Option.some.inj h).symm⟩
    · obtain ⟨ind, hfind⟩ : ∃ ind, find durStr 77 index = some ind := find_isSome hlen
      rw [hfind, Option.bind_eq_bind, Option.bind_some, if_neg (hmon ind hfind)]
      rfl
  · have hdrop' : durStr.drop index = n.text ++ 77 :: (partText days 68 ++ 84 :: rest) := by
      simpa [partText] using hdrop
    have hread := fun r => readPart_iff hdrop' hc (r := r)
    rw [length_partText_some] at hindT ⊢
    unfold parseMon
    rw [find_eq_of_append hdrop' (n.notMem_text hc)]
    refine ⟨fun r h => ?_, fun _ hnum hlt => ?_⟩
    · obtain ⟨ind, hfind, h⟩ := Option.bind_eq_some_iff.1 h
      obtain ⟨-, rfl⟩ := CInt.get?_eq_some_iff.1 hfind
      rw [CInt.val_of, if_pos (by omega), hread] at h
      exact ⟨by simpa [NumFits] using h.1, h.2⟩
    · rw [CInt.get?_of_fits (by simp [InInt]; omega), CInt.val_of, Option.bind_eq_bind,
        Option.bind_some, if_pos (by omega), hread]
      exact ⟨hnum n rfl, hlt, rfl⟩

end Read

theorem notMem_timeText {f : DurationText} {c : UInt8} (hc : IsMark c)
    (hne : c ∉ [84, 72, 77, 83]) : c ∉ f.timeText := by
  simp only [List.mem_cons, List.not_mem_nil, or_false, not_or] at hne
  obtain ⟨h84, h72, h77, h83⟩ := hne
  unfold DurationText.timeText
  rcases f.time with _ | ⟨hours, minutes, seconds⟩
  · exact List.not_mem_nil
  · simp [notMem_partText hc h72, notMem_partText hc h77, notMem_partText hc h83, h84]

section Durations

variable (f : DurationText)

/-- The place of the `T`. -/
def DurationText.timePlace : ℕ := 1 + (partText f.years 89).length + (partText f.months 77).length
  + (partText f.days 68).length

theorem drop_years : f.text.drop 1 = partText f.years 89 ++ (partText f.months 77
    ++ (partText f.days 68 ++ f.timeText)) := rfl

theorem drop_months : f.text.drop (1 + (partText f.years 89).length) = partText f.months 77
    ++ (partText f.days 68 ++ f.timeText) := by
  rw [← List.drop_drop, drop_years, List.drop_left]

theorem drop_days : f.text.drop (1 + (partText f.years 89).length + (partText f.months 77).length)
    = partText f.days 68 ++ f.timeText := by
  rw [← List.drop_drop, drop_months, List.drop_left]

theorem drop_time : f.text.drop f.timePlace = f.timeText := by
  rw [DurationText.timePlace, ← List.drop_drop, drop_days, List.drop_left]

theorem length_text : f.text.length = f.timePlace + f.timeText.length := by
  rw [← drop_time, List.length_drop]
  have : f.timePlace ≤ f.text.length := by
    simp [DurationText.timePlace, DurationText.text]
    omega
  omega

/-- Where the `T` is found. -/
def DurationText.indT : ℤ := if f.time.isSome then f.timePlace else -1

theorem find_T_iff {indT : ℤ} : find f.text 84 0 = some indT ↔
    (f.time.isSome → f.timePlace < 2 ^ 31) ∧ indT = f.indT := by
  have hc : IsMark 84 := ⟨by decide, by decide⟩
  have hY : (84 : UInt8) ∉ partText f.years 89 := notMem_partText hc (by decide)
  have hM : (84 : UInt8) ∉ partText f.months 77 := notMem_partText hc (by decide)
  have hD : (84 : UInt8) ∉ partText f.days 68 := notMem_partText hc (by decide)
  rcases htime : f.time with _ | ⟨hours, minutes, seconds⟩
  · have hT : (84 : UInt8) ∉ f.text := by
      simp [DurationText.text, DurationText.timeText, htime, hY, hM, hD]
    rw [find_eq_of_notMem (List.drop_zero) hT]
    simp [DurationText.indT, htime, eq_comm]
  · have hdrop : f.text.drop 0 = 80 :: (partText f.years 89 ++ (partText f.months 77
        ++ partText f.days 68)) ++ 84 :: (partText hours 72 ++ (partText minutes 77
        ++ partText seconds 83)) := by
      simp [DurationText.text, DurationText.timeText, htime]
    have hplace : (80 :: (partText f.years 89 ++ (partText f.months 77
        ++ partText f.days 68))).length = f.timePlace := by
      simp [DurationText.timePlace]
      omega
    rw [find_eq_of_append hdrop (by simp [hY, hM, hD]), hplace, CInt.get?_eq_some_iff]
    simp [DurationText.indT, htime, InInt]
    omega

/-- The months, whether there is a time or not. -/
theorem parseMon_text {index : ℕ} (hindex : index < 2 ^ 31)
    (hat : index = 1 + (partText f.years 89).length) :
    (∀ r, parseMon f.text f.indT index = some r → NumFits f.months ∧
      index + (partText f.months 77).length < 2 ^ 31 ∧
      r = (partVal f.months, index + (partText f.months 77).length)) ∧
    (f.text.length ≤ 2 ^ 31 → NumFits f.months →
      index + (partText f.months 77).length < 2 ^ 31 → parseMon f.text f.indT index =
        some (partVal f.months, index + (partText f.months 77).length)) := by
  have hc : IsMark 77 := ⟨by decide, by decide⟩
  have hdrop := drop_months f
  rw [← hat] at hdrop
  unfold DurationText.indT DurationText.timeText at *
  rcases htime : f.time with _ | ⟨hours, minutes, seconds⟩
  · rw [htime] at hdrop
    have hM : (77 : UInt8) ∉ partText f.days 68 ++ [] := by
      simp [notMem_partText hc]
    rw [Option.isSome_none, if_neg (by simp), parseMon_without_time]
    refine ⟨fun r => (parsePart_iff hindex hdrop hc hM).1, fun _ hnum hlt => ?_⟩
    exact (parsePart_iff hindex hdrop hc hM).2 ⟨hnum, hlt, rfl⟩
  · rw [htime] at hdrop
    refine parseMon_with_time hindex hdrop ?_
    rw [Option.isSome_some, if_pos rfl, DurationText.timePlace, hat]
    push_cast
    rfl

theorem notMem_after_years : (89 : UInt8) ∉ partText f.months 77 ++ (partText f.days 68
    ++ f.timeText) := by
  have hc : IsMark 89 := ⟨by decide, by decide⟩
  simp [notMem_partText hc, notMem_timeText hc]

theorem notMem_after_days : (68 : UInt8) ∉ f.timeText :=
  notMem_timeText ⟨by decide, by decide⟩ (by decide)

theorem parseDate_of_eq {r : ℤ × ℤ × ℤ} (h : parseDate f.text f.indT = some r) :
    NumFits f.years ∧ NumFits f.months ∧ NumFits f.days ∧ f.timePlace < 2 ^ 31 ∧
      r = (partVal f.years, partVal f.months, partVal f.days) := by
  obtain ⟨y, hy, h⟩ := Option.bind_eq_some_iff.1 h
  obtain ⟨hyears, hlt, rfl⟩ := (parsePart_iff (by omega) (drop_years f) ⟨by decide, by decide⟩
    (notMem_after_years f)).1 hy
  obtain ⟨m, hm, h⟩ := Option.bind_eq_some_iff.1 h
  obtain ⟨hmonths, hlt, rfl⟩ := (parseMon_text f hlt rfl).1 m hm
  obtain ⟨d, hd, h⟩ := Option.bind_eq_some_iff.1 h
  obtain ⟨hdays, hlt, rfl⟩ := (parsePart_iff hlt (drop_days f) ⟨by decide, by decide⟩
    (notMem_after_days f)).1 hd
  exact ⟨hyears, hmonths, hdays, hlt, (Option.some.inj h).symm⟩

theorem parseDate_eq (hlen : f.text.length ≤ 2 ^ 31) (hplace : f.timePlace < 2 ^ 31)
    (hyears : NumFits f.years) (hmonths : NumFits f.months) (hdays : NumFits f.days) :
    parseDate f.text f.indT = some (partVal f.years, partVal f.months, partVal f.days) := by
  unfold DurationText.timePlace at hplace
  have hy := (parsePart_iff (by omega) (drop_years f) ⟨by decide, by decide⟩
    (notMem_after_years f)).2 ⟨hyears, by omega, rfl⟩
  have hm := (parseMon_text f (by omega) rfl).2 hlen hmonths (by omega)
  have hd := (parsePart_iff (by omega) (drop_days f) ⟨by decide, by decide⟩
    (notMem_after_days f)).2 ⟨hdays, by omega, rfl⟩
  simp only [parseDate, hy, hm, hd, Option.bind_eq_bind, Option.bind_some]

section Time

variable {f} {hours minutes seconds : Option Numeral}
  (htime : f.time = some (hours, minutes, seconds))
include htime

theorem drop_hours : f.text.drop (f.timePlace + 1) = partText hours 72 ++ (partText minutes 77
    ++ partText seconds 83) := by
  rw [← List.drop_drop, drop_time, DurationText.timeText, htime]
  rfl

theorem drop_minutes : f.text.drop (f.timePlace + 1 + (partText hours 72).length) =
    partText minutes 77 ++ partText seconds 83 := by
  rw [← List.drop_drop, drop_hours htime, List.drop_left]

theorem drop_seconds : f.text.drop (f.timePlace + 1 + (partText hours 72).length
    + (partText minutes 77).length) = partText seconds 83 := by
  rw [← List.drop_drop, drop_minutes htime, List.drop_left]

theorem length_time : f.text.length = f.timePlace + 1 + (partText hours 72).length
    + (partText minutes 77).length + (partText seconds 83).length := by
  rw [length_text, DurationText.timeText, htime]
  simp only [Option.elim_some, List.length_cons, List.length_append]
  omega

end Time

theorem parseTime_iff (hplace : f.timePlace < 2 ^ 31) {r : ℤ × ℤ × ℤ} :
    parseTime f.text f.indT = some r ↔ NumFits f.hours ∧ NumFits f.minutes ∧ NumFits f.seconds ∧
      f.text.length < 2 ^ 31 + (if f.seconds.isSome then 1 else 0) ∧
      r = (partVal f.hours, partVal f.minutes, partVal f.seconds) := by
  unfold parseTime DurationText.indT DurationText.hours DurationText.minutes DurationText.seconds
  rcases htime : f.time with _ | ⟨hours, minutes, seconds⟩
  · have hlen := length_text f
    simp only [DurationText.timeText, htime, Option.elim_none, List.length_nil] at hlen
    simp [NumFits, partVal, eq_comm]
    omega
  · have hlen := length_time htime
    have hH : IsMark 72 := ⟨by decide, by decide⟩
    have hM : IsMark 77 := ⟨by decide, by decide⟩
    have hafter : (72 : UInt8) ∉ partText minutes 77 ++ partText seconds 83 := by
      simp [notMem_partText hH]
    have hidx : (((f.timePlace : ℤ) : CInt) + 1).val.toNat = f.timePlace + 1 := by simp
    rw [Option.isSome_some, if_pos rfl, if_neg (by omega)]
    simp only [Option.bind_eq_bind, Option.bind_eq_some_iff, CInt.get?_eq_some_iff,
      Option.bind_some]
    constructor
    · rintro ⟨_, ⟨hfits, rfl⟩, _, hh, _, hm, _, hs, hr⟩
      simp [InInt] at hfits
      rw [hidx, parsePart_iff (by omega) (drop_hours htime) hH hafter] at hh
      obtain ⟨hhfits, hlt, rfl⟩ := hh
      obtain ⟨hmfits, hlt, rfl⟩ := (parsePart_iff hlt (drop_minutes htime) hM (notMem_partText hM
        (by decide))).1 hm
      obtain ⟨hsfits, hle, rfl⟩ := (parseSec_iff (drop_seconds htime)).1 hs
      refine ⟨hhfits, hmfits, hsfits, ?_, (Option.some.inj hr).symm⟩
      rcases seconds with _ | n
      · simp [length_partText_none] at hlen ⊢
        omega
      · have hle' := hle rfl
        simp at hle' hlen ⊢
        omega
    · rintro ⟨hhfits, hmfits, hsfits, hlt, rfl⟩
      have hle : f.timePlace + 1 + (partText hours 72).length + (partText minutes 77).length <
            2 ^ 31 ∧
          (seconds.isSome → f.timePlace + 1 + (partText hours 72).length
            + (partText minutes 77).length + (partText seconds 83).length ≤ 2 ^ 31) := by
        rcases seconds with _ | n
        · simp [length_partText_none] at hlen hlt ⊢
          omega
        · simp [length_partText_some] at hlen hlt ⊢
          omega
      have hh := (parsePart_iff (by omega) (drop_hours htime) hH hafter).2
        ⟨hhfits, by omega, rfl⟩
      have hm := (parsePart_iff (by omega) (drop_minutes htime) hM (notMem_partText hM
        (by decide))).2 ⟨hmfits, hle.1, rfl⟩
      have hs := (parseSec_iff (drop_seconds htime)).2 ⟨hsfits, hle.2, rfl⟩
      rw [← hidx] at hh
      exact ⟨_, ⟨by simp [InInt]; omega, rfl⟩, _, hh, _, hm, _, hs, rfl⟩

theorem parseDuration_iff {r : Tm} :
    parseDuration f.text = some r ↔ f.Fits ∧ r = f.tm := by
  have hP : ¬ f.text[0]? ≠ some 80 := by simp [DurationText.text]
  unfold parseDuration
  rw [if_neg hP]
  simp only [Option.bind_eq_bind, Option.bind_eq_some_iff, find_T_iff]
  constructor
  · rintro ⟨_, ⟨hT, rfl⟩, _, hdate, _, htime, hr⟩
    obtain ⟨hyears, hmonths, hdays, hplace, rfl⟩ := parseDate_of_eq f hdate
    obtain ⟨hhours, hminutes, hseconds, hlen, rfl⟩ := (parseTime_iff f hplace).1 htime
    exact ⟨⟨hyears, hmonths, hdays, hhours, hminutes, hseconds, hlen⟩, (Option.some.inj hr).symm⟩
  · rintro ⟨h, rfl⟩
    have hplace : f.timePlace < 2 ^ 31 := by
      have hlt := h.length
      have hlen := length_text f
      unfold DurationText.seconds at hlt
      unfold DurationText.timeText at hlen
      rcases htime : f.time with _ | ⟨hours, minutes, seconds⟩ <;> rw [htime] at hlt hlen
      · simp at hlt hlen
        omega
      · simp at hlen
        split_ifs at hlt <;> omega
    have hlen : f.text.length ≤ 2 ^ 31 := by
      have := h.length
      split_ifs at this <;> omega
    exact ⟨_, ⟨fun _ => hplace, rfl⟩, _, parseDate_eq f hlen hplace h.years h.months h.days, _,
      (parseTime_iff f hplace).2 ⟨h.hours, h.minutes, h.seconds, h.length, rfl⟩, rfl⟩

end Durations

end DateTime

end Longda
