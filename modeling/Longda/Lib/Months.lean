import Longda.Lib.Gregorian
import Mathlib.Algebra.BigOperators.Group.Finset.Basic
import Mathlib.Order.SuccPred.Basic

/-!
# Months and other places

A number counted from the start of a place is put in order by going a place back as long as it is
below 1, and a place on as long as it is above the length of the place (`turn`). In order it is in
one place only (`Counts.unique`). The months are such places for the days (`counts_monthStart`).
-/

namespace Lib

open Finset

/-! ## Places -/

section Places

variable {len start : ℤ → ℤ} {k n f d : ℤ}

def InPlace (len : ℤ → ℤ) (k n : ℤ) : Prop := 1 ≤ n ∧ n ≤ len k

def turn (len : ℤ → ℤ) (k n : ℤ) : Option (ℤ × ℤ) :=
  if n < 1 then some (k - 1, n + len (k - 1))
  else if len k < n then some (k + 1, n - len k)
  else none

/-- Each place starts where the one before ends. -/
structure Counts (start len : ℤ → ℤ) : Prop where
  pos : ∀ k, 1 ≤ len k
  succ : ∀ k, start (k + 1) = start k + len k

theorem turn_eq_none_iff : turn len k n = none ↔ InPlace len k n := by
  unfold turn InPlace
  split_ifs <;> simp <;> omega

namespace Counts

variable (h : Counts start len)
include h

theorem turn_total {k' n' : ℤ} (ht : turn len k n = some (k', n')) :
    start k' + n' = start k + n := by
  have hback := h.succ (k - 1)
  have hon := h.succ k
  rw [Int.sub_add_cancel] at hback
  unfold turn at ht
  split_ifs at ht with hlow hhigh <;> obtain ⟨rfl, rfl⟩ := Prod.ext_iff.1 (Option.some.inj ht) <;>
    dsimp only <;> omega

theorem end_le {k' : ℤ} (hlt : k < k') : start k + len k ≤ start k' := by
  rw [← h.succ]
  exact monotone_int_of_le_succ (fun j => by have := h.pos j; rw [h.succ]; omega) hlt

/-- How a number stands that belongs to another place. -/
theorem position (hd : InPlace len f d) (htotal : start k + n = start f + d) :
    (k < f → 1 ≤ n ∧ len k < n) ∧ (f < k → n < 1) := by
  obtain ⟨h1, hle⟩ := hd
  refine ⟨fun hlt => ?_, fun hlt => ?_⟩
  · have hend := h.end_le hlt
    have hpos := h.pos k
    omega
  · have hend := h.end_le hlt
    omega

theorem unique (hn : InPlace len k n) (hd : InPlace len f d)
    (htotal : start k + n = start f + d) : k = f ∧ n = d := by
  obtain ⟨hon, hback⟩ := h.position hd htotal
  obtain ⟨h1, hle⟩ := hn
  obtain rfl : k = f := by
    rcases Int.lt_trichotomy k f with hlt | heq | hlt
    · have := hon hlt
      omega
    · exact heq
    · have := hback hlt
      omega
  omega

end Counts

/-- What there is in the places from one on to another, or less than nothing back. -/
def along (g : ℤ → ℤ) (a b : ℤ) : ℤ :=
  ∑ i ∈ range (b - a).toNat, g (a + i) - ∑ i ∈ range (a - b).toNat, g (b + i)

variable {g : ℤ → ℤ} {a b : ℤ}

theorem along_self : along g a a = 0 := Int.sub_self _

theorem along_succ : along g a (b + 1) = along g a b + g b := by
  unfold along
  rcases Int.lt_or_le b a with hlt | hle
  · obtain ⟨m, rfl⟩ : ∃ m : ℕ, a = b + 1 + m := ⟨(a - (b + 1)).toNat, by omega⟩
    rw [show (b + 1 - (b + 1 + m)).toNat = 0 by omega, show (b - (b + 1 + m)).toNat = 0 by omega,
      show (b + 1 + m - (b + 1)).toNat = m by omega, show (b + 1 + m - b).toNat = m + 1 by omega,
      sum_range_succ']
    have hshift : ∑ i ∈ range m, g (b + ((i + 1 : ℕ) : ℤ)) = ∑ i ∈ range m, g (b + 1 + i) :=
      sum_congr rfl fun i _ => by congr 1; omega
    rw [hshift]
    simp
  · obtain ⟨m, rfl⟩ : ∃ m : ℕ, b = a + m := ⟨(b - a).toNat, by omega⟩
    rw [show (a + m + 1 - a).toNat = m + 1 by omega, show (a - (a + m + 1)).toNat = 0 by omega,
      show (a + m - a).toNat = m by omega, show (a - (a + m)).toNat = 0 by omega, sum_range_succ]
    simp

/-- The same places made shorter, counted from one of them. -/
theorem Counts.shorten (h : Counts start len) (hg : ∀ k, g k < len k) (a : ℤ) :
    Counts (fun k => start k - along g a k) fun k => len k - g k := by
  refine ⟨fun k => ?_, fun k => ?_⟩
  · have := hg k
    omega
  · have hsucc := h.succ k
    have halong : along g a (k + 1) = along g a k + g k := along_succ
    omega

end Places

/-! ## Months -/

/-- The days from 1 March of year 0 to the first of the month, the months being counted from January
of year 0. -/
def monthStart (k : ℤ) : ℤ :=
  365 * ((k - 2) / 12) + (k - 2) / 12 / 4 - (k - 2) / 12 / 100 + (k - 2) / 12 / 400
    + (153 * ((k - 2) % 12) + 2) / 5

def monthLength (k : ℤ) : ℤ := daysInMonth (k / 12) (k % 12 + 1)

/-- The day, or the last one of a shorter month. -/
def clamp (len day : ℤ) : ℤ := if len < day then len else day

namespace Date

variable (d : Date)

def monthIndex : ℤ := 12 * d.year + (d.month - 1)

theorem monthIndex_div : d.monthIndex / 12 = d.year := by
  have h1 := d.month_pos
  have h12 := d.month_le
  unfold monthIndex
  omega

theorem monthIndex_mod : d.monthIndex % 12 + 1 = d.month := by
  have h1 := d.month_pos
  have h12 := d.month_le
  unfold monthIndex
  omega

theorem monthLength_monthIndex : monthLength d.monthIndex = daysInMonth d.year d.month := by
  rw [monthLength, monthIndex_div, monthIndex_mod]

theorem dayCount_eq_monthStart : d.dayCount = monthStart d.monthIndex + d.day - 1 := by
  have h1 := d.month_pos
  have h12 := d.month_le
  have hyear : (d.monthIndex - 2) / 12 = d.marchYear := by
    unfold monthIndex marchYear
    split_ifs <;> omega
  have hmonth : (d.monthIndex - 2) % 12 = d.marchMonth := by
    unfold monthIndex marchMonth
    split_ifs <;> omega
  rw [monthStart, hyear, hmonth]
  unfold dayCount dayOfMarchYear
  omega

/-- A day of a month counted from January of year 0. -/
def ofMonth (k day : ℤ) (h : InPlace monthLength k day) : Date where
  year := k / 12
  month := k % 12 + 1
  day := day
  month_pos := by omega
  month_le := by omega
  day_pos := h.1
  day_le := h.2

theorem monthIndex_ofMonth {k day : ℤ} (h : InPlace monthLength k day) :
    (ofMonth k day h).monthIndex = k := by
  unfold ofMonth monthIndex
  dsimp only
  omega

theorem next_of_last (h : d.day = daysInMonth d.year d.month) :
    d.next.monthIndex = d.monthIndex + 1 ∧ d.next.day = 1 := by
  have h12 := d.month_le
  unfold next
  rw [dif_neg (by omega)]
  split_ifs <;> unfold monthIndex <;> dsimp only <;> omega

theorem inPlace_clamp (k : ℤ) : InPlace monthLength k (clamp (monthLength k) d.day) := by
  have hday := d.day_pos
  have hlen : 28 ≤ monthLength k := le_daysInMonth _ _
  unfold InPlace clamp
  split_ifs <;> omega

/-- The same day of another month, or the last one of it. -/
def addMonths (n : ℤ) : Date :=
  ofMonth (d.monthIndex + n) (clamp (monthLength (d.monthIndex + n)) d.day) (d.inPlace_clamp _)

theorem monthIndex_addMonths (n : ℤ) : (d.addMonths n).monthIndex = d.monthIndex + n :=
  monthIndex_ofMonth _

theorem day_addMonths (n : ℤ) :
    (d.addMonths n).day = clamp (monthLength (d.monthIndex + n)) d.day := rfl

end Date

/-- The last day of a month is the one before the first of the next. -/
theorem counts_monthStart : Counts monthStart monthLength := by
  have hpos : ∀ k, 28 ≤ monthLength k := fun k => le_daysInMonth _ _
  refine ⟨fun k => by have := hpos k; omega, fun k => ?_⟩
  have hlast : InPlace monthLength k (monthLength k) := ⟨by have := hpos k; omega, le_rfl⟩
  obtain ⟨hindex, hday⟩ := (Date.ofMonth k _ hlast).next_of_last rfl
  have hnext := (Date.ofMonth k _ hlast).dayCount_next
  rw [Date.dayCount_eq_monthStart, Date.dayCount_eq_monthStart, hindex, hday,
    Date.monthIndex_ofMonth] at hnext
  have hlen : (Date.ofMonth k _ hlast).day = monthLength k := rfl
  omega

end Lib
