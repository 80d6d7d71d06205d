import Longda.Lang.Lstring
import Longda.Lib.OrderedMap

/-!
# The statistics stage

`SedaStatsStage` keeps a `SedaStatsMap` for each category, and that one a `SedaStatsStore` for each
statistic, by its number or by its name. The functions for requests are compiled out
(`SEDASTATS_MANAGE` is 0). What is left takes in events, and clears, enables and disables
categories; the static functions work on the one stage there is.
-/

namespace Longda

open Lib

namespace SedaStats

def MAX_NUM_CATEGORY : ℤ := 2000
def ALL_CATEGORY : ℤ := 0
def DUMMY_END_CATEGORY : ℤ := MAX_NUM_CATEGORY

inductive StatsId where
  | ID (id : ℤ)
  | STR (strId : Str)
  | ALL
  deriving DecidableEq

/-- The name, which is empty where none is given. -/
def StatsId.strId : StatsId → Str
  | STR strId => strId
  | _ => []

end SedaStats

open SedaStats

structure SedaStatsEvent where
  category : ℤ
  statId : StatsId
  statTime : UInt64 := 0
  statCount : Int32 := 0
  timeCollected : Bool := false
  countCollected : Bool := false
  resetCount : Bool := false
  persistent : Bool

structure SedaStatsStore where
  totalTime : UInt64
  maxTime : UInt64
  minTime : UInt64
  numStat : UInt64
  numEffectiveStat : UInt64
  noStatReceived : Bool
  isCounter : Bool
  totalCounter : Int64
  noCounterReceived : Bool
  avgIncrement : Int64
  minIncrement : Int64
  maxIncrement : Int64
  counterCount : UInt64
  persistent : Bool
  deriving DecidableEq

namespace SedaStatsStore

/-- The constructor. -/
def make (persistent : Bool) : SedaStatsStore where
  totalTime := 0
  maxTime := 0
  minTime := 0
  numStat := 0
  numEffectiveStat := 0
  noStatReceived := true
  isCounter := false
  totalCounter := 0
  noCounterReceived := true
  avgIncrement := 0
  minIncrement := 0
  maxIncrement := 0
  counterCount := 0
  persistent := persistent

def reset (st : SedaStatsStore) : SedaStatsStore := make st.persistent

def incTotalTime (st : SedaStatsStore) (time : UInt64) : SedaStatsStore :=
  let st :=
    if st.totalTime + time < st.totalTime then
      { st with totalTime := time, numEffectiveStat := 1 }
    else
      { st with totalTime := st.totalTime + time, numEffectiveStat := st.numEffectiveStat + 1 }
  let st := { st with numStat := st.numStat + 1 }
  let st := if st.noStatReceived then { st with minTime := time, noStatReceived := false } else st
  if st.maxTime < time then { st with maxTime := time }
  else if st.minTime > time then { st with minTime := time }
  else st

/-- The average divides by an unsigned number, which makes the total one. -/
def incCounter (st : SedaStatsStore) (count : Int64) : SedaStatsStore :=
  let st := { st with
    totalCounter := st.totalCounter + count
    counterCount := st.counterCount + 1
    isCounter := true }
  let st := { st with avgIncrement := (st.totalCounter.toUInt64 / st.counterCount).toInt64 }
  if st.noCounterReceived then
    { st with minIncrement := count, maxIncrement := count, noCounterReceived := false }
  else { st with
    minIncrement := if count < st.minIncrement then count else st.minIncrement
    maxIncrement := if count > st.maxIncrement then count else st.maxIncrement }

def resetCounter (st : SedaStatsStore) (count : Int64) : SedaStatsStore := { st with
  totalCounter := count
  counterCount := 1
  isCounter := true
  noCounterReceived := false
  minIncrement := count
  avgIncrement := count
  maxIncrement := count }

/-- What `SedaStatsMapStoreStats` does with the store it has found or made. -/
def report (st : SedaStatsStore) (statsEv : SedaStatsEvent) : SedaStatsStore :=
  let st := if statsEv.timeCollected then st.incTotalTime statsEv.statTime else st
  if statsEv.resetCount then st.resetCounter statsEv.statCount.toInt64
  else if statsEv.countCollected then st.incCounter statsEv.statCount.toInt64
  else st

/-- A turn of the loops of `SedaStatsMapClearStats`: the store as it stays, if it does. -/
def clear (removeflag : Bool) (st : SedaStatsStore) : Option SedaStatsStore :=
  if st.persistent then some st else if removeflag then none else some st.reset

/-- Both branches at once. -/
theorem incCounter_eq (st : SedaStatsStore) (count : Int64) : st.incCounter count = { st with
    totalCounter := st.totalCounter + count
    counterCount := st.counterCount + 1
    isCounter := true
    avgIncrement := ((st.totalCounter + count).toUInt64 / (st.counterCount + 1)).toInt64
    noCounterReceived := false
    minIncrement :=
      if st.noCounterReceived ∨ count < st.minIncrement then count else st.minIncrement
    maxIncrement :=
      if st.noCounterReceived ∨ st.maxIncrement < count then count else st.maxIncrement } := by
  unfold incCounter
  by_cases h : st.noCounterReceived <;> simp [h]

end SedaStatsStore

structure SedaStatsMap where
  statsIdMap : OrderedMap ℤ SedaStatsStore := .empty
  statsStrIdMap : OrderedMap Str SedaStatsStore := .empty

namespace SedaStatsMap

def SedaStatsMapStoreStats (m : SedaStatsMap) (statsEv : SedaStatsEvent) : SedaStatsMap :=
  match statsEv.statId with
  | .ID id =>
    let st := (m.statsIdMap.find? id).getD (.make statsEv.persistent)
    { m with statsIdMap := m.statsIdMap.set id (st.report statsEv) }
  | statsId =>
    let st := (m.statsStrIdMap.find? statsId.strId).getD (.make statsEv.persistent)
    { m with statsStrIdMap := m.statsStrIdMap.set statsId.strId (st.report statsEv) }

/-- The entry under a key cleared, and whether there is one. -/
def clearEntry {κ : Type} [LinearOrder κ] (m : OrderedMap κ SedaStatsStore) (removeflag : Bool)
    (k : κ) : Bool × OrderedMap κ SedaStatsStore :=
  match m.find? k with
  | none => (false, m)
  | some st => (true, match st.clear removeflag with
    | none => m.erase k
    | some st => m.set k st)

def SedaStatsMapClearStats (m : SedaStatsMap) (sid : StatsId) (removeflag : Bool) :
    Bool × SedaStatsMap :=
  match sid with
  | .ALL => (true, {
      statsIdMap := m.statsIdMap.filterMap fun _ => SedaStatsStore.clear removeflag
      statsStrIdMap := m.statsStrIdMap.filterMap fun _ => SedaStatsStore.clear removeflag })
  | .ID id =>
    let (found, statsIdMap) := clearEntry m.statsIdMap removeflag id
    (found, { m with statsIdMap })
  | .STR strId =>
    let (found, statsStrIdMap) := clearEntry m.statsStrIdMap removeflag strId
    (found, { m with statsStrIdMap })

end SedaStatsMap

structure SedaStatsStage where
  collectEnabled : Bool
  externalCategoryEnableMap : ℤ → Bool
  internalCategoryEnableMap : ℤ → Bool
  categoryMap : OrderedMap ℤ SedaStatsMap := .empty

namespace SedaStatsStage

def isCategoryEnabled (s : SedaStatsStage) (category : ℤ) : Bool :=
  s.collectEnabled && decide (category < MAX_NUM_CATEGORY ∧ category ≥ 0) &&
    (s.externalCategoryEnableMap category || s.internalCategoryEnableMap category)

def storeStats (s : SedaStatsStage) (statsEv : SedaStatsEvent) : SedaStatsStage :=
  if statsEv.category ≤ 0 ∨ statsEv.category ≥ MAX_NUM_CATEGORY then s
  else
    let pSedaStatsMap := (s.categoryMap.find? statsEv.category).getD {}
    { s with categoryMap :=
        s.categoryMap.set statsEv.category (pSedaStatsMap.SedaStatsMapStoreStats statsEv) }

def clearStats (s : SedaStatsStage) (category : ℤ) (sid : StatsId) : Bool × SedaStatsStage :=
  if category ≠ ALL_CATEGORY then
    match s.categoryMap.find? category with
    | none => (false, s)
    | some m =>
      let rmFlag := !s.isCategoryEnabled category
      if sid = .ALL ∧ rmFlag then (true, { s with categoryMap := s.categoryMap.erase category })
      else
        let (found, m) := m.SedaStatsMapClearStats sid rmFlag
        (found, { s with categoryMap := s.categoryMap.set category m })
  else
    (true, { s with categoryMap := s.categoryMap.filterMap fun category m =>
      let rmFlag := !s.isCategoryEnabled category
      if sid = .ALL ∧ rmFlag then none else some (m.SedaStatsMapClearStats sid rmFlag).2 })

def removeCategory (s : SedaStatsStage) (category : ℤ) : Bool × SedaStatsStage :=
  if category ≠ ALL_CATEGORY then
    if s.isCategoryEnabled category then (true, s)
    else if (s.categoryMap.find? category).isSome then
      (true, { s with categoryMap := s.categoryMap.erase category })
    else (false, s)
  else
    (true, { s with categoryMap := s.categoryMap.filterMap fun category m =>
      if s.isCategoryEnabled category then some m else none })

/-- `internalCategoryEnableMap` with the entries in the range set. -/
def setInternal (s : SedaStatsStage) (p : ℤ → Bool) (enabled : Bool) : SedaStatsStage :=
  { s with internalCategoryEnableMap :=
      fun i => if p i then enabled else s.internalCategoryEnableMap i }

def enableCategory (s : SedaStatsStage) (category : ℤ) : SedaStatsStage :=
  if category = ALL_CATEGORY then
    s.setInternal (fun i => decide (0 ≤ i ∧ i < MAX_NUM_CATEGORY)) true
  else if category > 0 ∧ category < MAX_NUM_CATEGORY then s.setInternal (· == category) true
  else s

def disableCategory (s : SedaStatsStage) (category : ℤ) : SedaStatsStage :=
  if category = ALL_CATEGORY then
    ((s.setInternal (fun i => decide (0 ≤ i ∧ i < MAX_NUM_CATEGORY)) false).removeCategory
      category).2
  else if category > ALL_CATEGORY ∧ category < DUMMY_END_CATEGORY then
    ((s.setInternal (· == category) false).removeCategory category).2
  else s

end SedaStatsStage

end Longda
