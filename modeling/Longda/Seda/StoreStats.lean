import Longda.Lib.MachineInt
import Longda.Lib.Samples
import Longda.Seda.SedaStats
import Mathlib.Algebra.Ring.Int.Defs
import Mathlib.Algebra.Ring.Nat
import Mathlib.Data.List.Induction
import Mathlib.Data.List.Infix

/-!
# What a store says of its samples

A store keeps totals, counts and extremes of the times and of the counter values reported to it.
The times and the values since the last reset are told from the calls alone (`times`, `counts`,
newest first); the fields of the store are functions of them in every run (`timeFields_calls`,
`counterFields_calls`). The average of the counter divides as an unsigned number, so that it is
right as long as the total is not negative.
-/

namespace Longda

open Lib

/-- The calls that change a store. -/
inductive StoreCall where
  | incTotalTime (time : UInt64)
  | incCounter (count : Int64)
  | resetCounter (count : Int64)
  | reset

/-- Whether the call reports a time. -/
def StoreCall.isTime : StoreCall → Bool
  | incTotalTime _ => true
  | _ => false

namespace SedaStatsStore

def getAvgTime (st : SedaStatsStore) : UInt64 :=
  if st.numEffectiveStat > 0 then st.totalTime / st.numEffectiveStat else 0

def getTotalTime (st : SedaStatsStore) : UInt64 :=
  if st.numEffectiveStat = st.numStat then st.totalTime else -1

def call (st : SedaStatsStore) : StoreCall → SedaStatsStore
  | .incTotalTime time => st.incTotalTime time
  | .incCounter count => st.incCounter count
  | .resetCounter count => st.resetCounter count
  | .reset => st.reset

def calls (st : SedaStatsStore) (cs : List StoreCall) : SedaStatsStore := cs.foldl call st

end SedaStatsStore

open SedaStatsStore

def timesAfter (xs : List ℕ) : StoreCall → List ℕ
  | .incTotalTime time => time.toNat :: xs
  | .reset => []
  | _ => xs

/-- The times reported since the last reset. -/
def times (cs : List StoreCall) : List ℕ := cs.foldl timesAfter []

def countsAfter (xs : List ℤ) : StoreCall → List ℤ
  | .incCounter count => count.toInt :: xs
  | .resetCounter count => [count.toInt]
  | .reset => []
  | .incTotalTime _ => xs

/-- The counter values since the last reset, of which that of `resetCounter` is the first. -/
def counts (cs : List StoreCall) : List ℤ := cs.foldl countsAfter []

section Runs

variable (st : SedaStatsStore) (cs : List StoreCall) (c : StoreCall)

theorem calls_concat : st.calls (cs ++ [c]) = (st.calls cs).call c := List.foldl_concat ..

theorem times_concat : times (cs ++ [c]) = timesAfter (times cs) c := List.foldl_concat ..

theorem counts_concat : counts (cs ++ [c]) = countsAfter (counts cs) c := List.foldl_concat ..

end Runs

/-- The step for a time, a field at a time. -/
theorem incTotalTime_eq (st : SedaStatsStore) (time : UInt64) : st.incTotalTime time = { st with
    totalTime :=
      if 2 ^ 64 ≤ st.totalTime.toNat + time.toNat then time else st.totalTime + time
    numEffectiveStat :=
      if 2 ^ 64 ≤ st.totalTime.toNat + time.toNat then 1 else st.numEffectiveStat + 1
    numStat := st.numStat + 1
    noStatReceived := false
    maxTime := if st.maxTime < time then time else st.maxTime
    minTime :=
      if st.noStatReceived then time
      else if st.maxTime < time then st.minTime else if time < st.minTime then time
      else st.minTime } := by
  have hover : st.totalTime + time < st.totalTime ↔
      2 ^ 64 ≤ st.totalTime.toNat + time.toNat := by
    have := st.totalTime.toNat_lt
    have := time.toNat_lt
    rw [UInt64.lt_iff_toNat_lt, UInt64.toNat_add]
    omega
  simp only [SedaStatsStore.incTotalTime, hover, gt_iff_lt]
  rcases st with ⟨⟩
  split_ifs <;> simp_all

section Times

/-- What the store says of the times since the last reset. -/
structure TimeStats (st : SedaStatsStore) (xs : List ℕ) : Prop where
  extremes : xs ≠ [] → Extremes xs st.minTime.toNat st.maxTime.toNat
  count : st.numStat.toNat = xs.length
  average : st.getAvgTime.toNat = (sinceRestart (2 ^ 64) xs).sum /
    (sinceRestart (2 ^ 64) xs).length
  total : st.getTotalTime.toNat = if sinceRestart (2 ^ 64) xs = xs then xs.sum else 2 ^ 64 - 1

/-- The fields for the times, after fewer than `2 ^ 64` of them. -/
structure TimeFields (st : SedaStatsStore) (xs : List ℕ) : Prop where
  lt : ∀ x ∈ xs, x < 2 ^ 64
  totalTime : st.totalTime.toNat = (sinceRestart (2 ^ 64) xs).sum
  numEffectiveStat : st.numEffectiveStat.toNat = (sinceRestart (2 ^ 64) xs).length
  numStat : st.numStat.toNat = xs.length
  noStatReceived : st.noStatReceived = xs.isEmpty
  maxTime : xs = [] → st.maxTime = 0
  extremes : xs ≠ [] → Extremes xs st.minTime.toNat st.maxTime.toNat

theorem TimeFields.make (persistent : Bool) : TimeFields (.make persistent) [] := by
  refine ⟨?_, ?_, ?_, ?_, ?_, ?_, ?_⟩ <;> simp [SedaStatsStore.make, sinceRestart]

theorem TimeFields.incTotalTime {st : SedaStatsStore} {xs : List ℕ} (h : TimeFields st xs)
    (hxs : xs.length + 1 < 2 ^ 64) (time : UInt64) :
    TimeFields (st.incTotalTime time) (time.toNat :: xs) := by
  have hle := sinceRestart_length_le (M := 2 ^ 64) xs
  rw [incTotalTime_eq]
  refine ⟨?_, ?_, ?_, ?_, rfl, by simp, fun _ => ?_⟩
  · simpa using ⟨time.toNat_lt, h.lt⟩
  · simp only [sinceRestart, ← h.totalTime]
    by_cases ho : 2 ^ 64 ≤ st.totalTime.toNat + time.toNat
    · rw [if_pos ho, if_neg (by omega), List.sum_singleton]
    · rw [if_neg ho, if_pos (by omega), List.sum_cons, ← h.totalTime, UInt64.toNat_add]
      omega
  · simp only [sinceRestart, ← h.totalTime]
    by_cases ho : 2 ^ 64 ≤ st.totalTime.toNat + time.toNat
    · rw [if_pos ho, if_neg (by omega)]
      rfl
    · rw [if_neg ho, if_pos (by omega), List.length_cons, ← h.numEffectiveStat, UInt64.toNat_add]
      have := h.numEffectiveStat
      simp only [UInt64.toNat_one]
      omega
  · have := h.numStat
    simp only [UInt64.toNat_add, UInt64.toNat_one, List.length_cons]
    omega
  · simp only [h.noStatReceived, List.isEmpty_iff, UInt64.lt_iff_toNat_lt]
    by_cases hx : xs = []
    · simp only [hx, h.maxTime hx, if_true, UInt64.toNat_zero]
      convert extremes_singleton time.toNat
      split_ifs with ht
      · rfl
      · exact UInt64.toNat_inj.1 (Nat.eq_zero_of_not_pos ht).symm
    · have he := (h.extremes hx).cons time.toNat
      have := (h.extremes hx).lo_le_hi
      simp only [hx, if_false]
      convert he using 1 <;> split_ifs <;> first | rfl | omega

theorem TimeFields.call {st : SedaStatsStore} {xs : List ℕ} (h : TimeFields st xs)
    (c : StoreCall) (hxs : c.isTime → xs.length + 1 < 2 ^ 64) :
    TimeFields (st.call c) (timesAfter xs c) := by
  rcases c with time | count | count | _
  · exact h.incTotalTime (hxs rfl) time
  · rw [SedaStatsStore.call, SedaStatsStore.incCounter_eq]
    exact ⟨h.lt, h.totalTime, h.numEffectiveStat, h.numStat, h.noStatReceived, h.maxTime,
      h.extremes⟩
  · exact ⟨h.lt, h.totalTime, h.numEffectiveStat, h.numStat, h.noStatReceived, h.maxTime,
      h.extremes⟩
  · exact .make st.persistent

theorem timesAfter_length_le (xs : List ℕ) (c : StoreCall) :
    (timesAfter xs c).length ≤ xs.length + [c].countP StoreCall.isTime := by
  rcases c with time | count | count | _ <;> simp [timesAfter, StoreCall.isTime]

theorem times_length_le (cs : List StoreCall) :
    (times cs).length ≤ cs.countP StoreCall.isTime := by
  induction cs using List.reverseRecOn with
  | nil => exact le_rfl
  | append_singleton cs c ih =>
    have := timesAfter_length_le (times cs) c
    rw [times_concat, List.countP_append]
    omega

/-- The fields for the times after any calls. -/
theorem timeFields_calls (persistent : Bool) (cs : List StoreCall)
    (h : cs.countP StoreCall.isTime < 2 ^ 64) :
    TimeFields ((make persistent).calls cs) (times cs) := by
  induction cs using List.reverseRecOn with
  | nil => exact .make persistent
  | append_singleton cs c ih =>
    rw [List.countP_append] at h
    rw [calls_concat, times_concat]
    refine (ih (by omega)).call c fun hc => ?_
    have := times_length_le cs
    simp only [List.countP_singleton, hc, if_true] at h
    omega

theorem TimeFields.stats {st : SedaStatsStore} {xs : List ℕ} (h : TimeFields st xs) :
    TimeStats st xs where
  extremes := h.extremes
  count := h.numStat
  average := by
    unfold getAvgTime
    split_ifs with h0
    · rw [UInt64.toNat_div, h.totalTime, h.numEffectiveStat]
    · have hz : st.numEffectiveStat.toNat = 0 := by
        simpa [UInt64.lt_iff_toNat_lt] using h0
      rw [← h.numEffectiveStat, hz, Nat.div_zero]
      rfl
  total := by
    have hiff : st.numEffectiveStat = st.numStat ↔ sinceRestart (2 ^ 64) xs = xs := by
      rw [← sinceRestart_length_eq_iff (by omega) h.lt, ← h.numEffectiveStat, ← h.numStat,
        UInt64.toNat_inj]
    simp only [getTotalTime, hiff]
    split_ifs with hs
    · rw [h.totalTime, hs]
    · rfl

/-- After any calls with fewer than `2 ^ 64` times among them, the store tells the extremes, the
number, the average and the total of the times since the last reset. -/
theorem times_told (persistent : Bool) (cs : List StoreCall)
    (h : cs.countP StoreCall.isTime < 2 ^ 64) :
    TimeStats ((make persistent).calls cs) (times cs) :=
  (timeFields_calls persistent cs h).stats

theorem times_told_restart :
    [StoreCall.incTotalTime 3, .reset, .incTotalTime 5, .incTotalTime (-1)].countP
        StoreCall.isTime < 2 ^ 64 ∧
      TimeStats ((make false).calls
        [.incTotalTime 3, .reset, .incTotalTime 5, .incTotalTime (-1)]) [2 ^ 64 - 1, 5] :=
  have h : [StoreCall.incTotalTime 3, .reset, .incTotalTime 5, .incTotalTime (-1)].countP
      StoreCall.isTime < 2 ^ 64 := List.countP_le_length.trans_lt (by simp)
  ⟨h, times_told false _ h⟩

end Times

section Counter

/-- What the store says of the counter values since the last reset. -/
structure CounterStats (st : SedaStatsStore) (xs : List ℤ) : Prop where
  total : st.totalCounter.toInt = xs.sum
  count : st.counterCount.toNat = xs.length
  extremes : xs ≠ [] → Extremes xs st.minIncrement.toInt st.maxIncrement.toInt
  average : st.avgIncrement.toInt = xs.sum.tdiv xs.length

/-- The fields for the counter, whatever overflows. -/
structure CounterFields (st : SedaStatsStore) (xs : List ℤ) : Prop where
  totalCounter : st.totalCounter = .ofInt xs.sum
  counterCount : st.counterCount = .ofNat xs.length
  avgIncrement : st.avgIncrement = (st.totalCounter.toUInt64 / st.counterCount).toInt64
  noCounterReceived : st.noCounterReceived = xs.isEmpty
  extremes : xs ≠ [] → Extremes xs st.minIncrement.toInt st.maxIncrement.toInt

theorem CounterFields.make (persistent : Bool) : CounterFields (.make persistent) [] := by
  refine ⟨rfl, rfl, ?_, rfl, ?_⟩ <;> simp [SedaStatsStore.make]

theorem CounterFields.incCounter {st : SedaStatsStore} {xs : List ℤ} (h : CounterFields st xs)
    (count : Int64) : CounterFields (st.incCounter count) (count.toInt :: xs) := by
  rw [SedaStatsStore.incCounter_eq]
  refine ⟨?_, ?_, rfl, rfl, fun _ => ?_⟩
  · simp only [h.totalCounter, List.sum_cons, Int64.ofInt_add, Int64.ofInt_toInt, Int64.add_comm]
  · simp only [h.counterCount, List.length_cons, UInt64.ofNat_add]
    rfl
  · simp only [h.noCounterReceived, List.isEmpty_iff, Int64.lt_iff_toInt_lt]
    by_cases hx : xs = []
    · simpa [hx] using extremes_singleton count.toInt
    · have he := (h.extremes hx).cons count.toInt
      simp only [hx, false_or]
      convert he using 1 <;> split_ifs <;> rfl

theorem CounterFields.resetCounter {st : SedaStatsStore} (count : Int64) :
    CounterFields (st.resetCounter count) [count.toInt] := by
  refine ⟨?_, rfl, ?_, rfl, fun _ => extremes_singleton _⟩
  · simp [SedaStatsStore.resetCounter]
  · simp [SedaStatsStore.resetCounter]

theorem CounterFields.call {st : SedaStatsStore} {xs : List ℤ} (h : CounterFields st xs)
    (c : StoreCall) : CounterFields (st.call c) (countsAfter xs c) := by
  rcases c with time | count | count | _
  · rw [SedaStatsStore.call, incTotalTime_eq]
    exact ⟨h.totalCounter, h.counterCount, h.avgIncrement, h.noCounterReceived, h.extremes⟩
  · exact h.incCounter count
  · exact .resetCounter count
  · exact .make st.persistent

/-- The fields for the counter after any calls. -/
theorem counterFields_calls (persistent : Bool) (cs : List StoreCall) :
    CounterFields ((SedaStatsStore.make persistent).calls cs) (counts cs) := by
  induction cs using List.reverseRecOn with
  | nil => exact .make persistent
  | append_singleton cs c ih =>
    rw [calls_concat, counts_concat]
    exact ih.call c

/-- The values of which the average is right: no more than can be counted, and not negative in all,
unless there is but one or they are so many that the average is zero either way. -/
def AverageRight (xs : List ℤ) : Prop :=
  xs.length < 2 ^ 64 ∧ (0 ≤ xs.sum ∨ xs.length ≤ 1 ∨ 2 ^ 64 + xs.sum < xs.length)

theorem CounterFields.stats_iff {st : SedaStatsStore} {xs : List ℤ} (h : CounterFields st xs)
    (hs : -2 ^ 63 ≤ xs.sum ∧ xs.sum < 2 ^ 63) : CounterStats st xs ↔ AverageRight xs := by
  have htotal : st.totalCounter.toInt = xs.sum := by
    rw [h.totalCounter, Int64.toInt_ofInt_of_le hs.1 hs.2]
  have hcount : st.counterCount.toNat = xs.length ↔ xs.length < 2 ^ 64 := by
    rw [h.counterCount, UInt64.toNat_ofNat']
    omega
  have havg : xs.length < 2 ^ 64 → (st.avgIncrement.toInt = xs.sum.tdiv xs.length ↔
      0 ≤ xs.sum ∨ xs.length ≤ 1 ∨ 2 ^ 64 + xs.sum < xs.length) := by
    intro hn
    rw [h.avgIncrement, ← htotal, ← hcount.2 hn]
    exact toInt_unsignedDiv_eq_tdiv_iff _ _
  refine ⟨fun hst => ?_, fun ⟨hn, hxs⟩ => ?_⟩
  · have hn := hcount.1 hst.count
    exact ⟨hn, (havg hn).1 hst.average⟩
  · exact ⟨htotal, hcount.2 hn, h.extremes, (havg hn).2 hxs⟩

/-- As long as the total stays within 64 bits, the store tells the total, the number, the extremes
and the average of the counter values all along exactly if the average is right all along. -/
theorem counts_told_iff (persistent : Bool) (cs : List StoreCall)
    (h : ∀ ds, ds <+: cs → -2 ^ 63 ≤ (counts ds).sum ∧ (counts ds).sum < 2 ^ 63) :
    (∀ ds, ds <+: cs → CounterStats ((make persistent).calls ds) (counts ds)) ↔
      ∀ ds, ds <+: cs → AverageRight (counts ds) :=
  forall₂_congr fun ds hds => (counterFields_calls persistent ds).stats_iff (h ds hds)

theorem counts_told_iff_negative :
    (∀ ds, ds <+: [StoreCall.resetCounter (-5)] →
      CounterStats ((make false).calls ds) (counts ds)) ↔
      ∀ ds, ds <+: [StoreCall.resetCounter (-5)] → AverageRight (counts ds) :=
  counts_told_iff false _ fun ds hds => by
    rcases ds with _ | ⟨d, ds⟩
    · simp [counts]
    · rw [List.cons_prefix_cons, List.prefix_nil] at hds
      obtain ⟨rfl, rfl⟩ := hds
      simp [counts, countsAfter]

/-- Two values of -5 are said to average 2 ^ 63 - 5. -/
theorem counts_told_false :
    ¬ ∀ cs : List StoreCall,
      (∀ ds, ds <+: cs → -2 ^ 63 ≤ (counts ds).sum ∧ (counts ds).sum < 2 ^ 63) →
        CounterStats ((make false).calls cs) (counts cs) := by
  intro h
  have havg := (h [.incCounter (-5), .incCounter (-5)] fun ds hds => by
    rw [← List.mem_inits] at hds
    revert ds
    decide).average
  revert havg
  decide

end Counter

end Longda
