import Longda.Lib.Lifetime
import Longda.Seda.SedaStats
import Mathlib.Tactic.SplitIfs

/-!
# Statistics that persist

A statistic that is created persistent is to outlive every clear, and to hold what was reported to
it ever since. `SedaStatsMapClearStats` sees to that. What does not are the event that resets a
counter, and whatever drops a category at once: a clear of all statistics, or a removal, of a
category that is not enabled.
-/

namespace Longda

open Lib SedaStats

/-- A category and, in it, the number or the name of a statistic. -/
structure StatKey where
  category : ℤ
  id : ℤ ⊕ Str
  deriving DecidableEq

def SedaStats.StatsId.key : StatsId → ℤ ⊕ Str
  | .ID id => .inl id
  | sid => .inr sid.strId

/-- The statistics of a category that a clear addresses. -/
def SedaStats.StatsId.Covers (sid : StatsId) (id : ℤ ⊕ Str) : Prop := sid = .ALL ∨ id = sid.key

instance (sid : StatsId) (id : ℤ ⊕ Str) : Decidable (sid.Covers id) :=
  inferInstanceAs (Decidable (_ ∨ _))

namespace SedaStatsEvent

def key (ev : SedaStatsEvent) : StatKey := ⟨ev.category, ev.statId.key⟩

/-- The category is one that statistics are kept of. -/
def Stored (ev : SedaStatsEvent) : Prop := 0 < ev.category ∧ ev.category < MAX_NUM_CATEGORY

instance (ev : SedaStatsEvent) : Decidable ev.Stored := inferInstanceAs (Decidable (_ ∧ _))

end SedaStatsEvent

def SedaStatsMap.find? (m : SedaStatsMap) : ℤ ⊕ Str → Option SedaStatsStore
  | .inl id => m.statsIdMap.find? id
  | .inr strId => m.statsStrIdMap.find? strId

def SedaStatsStage.stat (s : SedaStatsStage) (k : StatKey) : Option SedaStatsStore :=
  (s.categoryMap.find? k.category).bind (·.find? k.id)

/-! ## Runs of the stage -/

inductive StatsOp where
  | handleEvent (ev : SedaStatsEvent)
  | clearStats (category : ℤ) (sid : StatsId)
  | removeCategory (category : ℤ)
  | enableCategory (category : ℤ)
  | disableCategory (category : ℤ)

def SedaStatsStage.step (s : SedaStatsStage) : StatsOp → SedaStatsStage
  | .handleEvent ev => s.storeStats ev
  | .clearStats category sid => (s.clearStats category sid).2
  | .removeCategory category => (s.removeCategory category).2
  | .enableCategory category => s.enableCategory category
  | .disableCategory category => s.disableCategory category

/-- The event, if it is one of the statistic that is stored. -/
def StatsOp.reports (k : StatKey) : StatsOp → Option SedaStatsEvent
  | .handleEvent ev => if ev.Stored ∧ ev.key = k then some ev else none
  | _ => none

namespace SedaStatsStore

/-- The store with an event added, whatever the total of the times and whether or not the event
would reset the counter. -/
def accumulate (st : SedaStatsStore) (ev : SedaStatsEvent) : SedaStatsStore :=
  let st := if ev.timeCollected then
      { st.incTotalTime ev.statTime with
        totalTime := st.totalTime + ev.statTime
        numEffectiveStat := st.numEffectiveStat + 1 }
    else st
  if ev.resetCount || ev.countCollected then st.incCounter ev.statCount.toInt64 else st

/-- To reset the counter to the count is to add it: nothing has been counted. -/
def CounterUnused (st : SedaStatsStore) (count : Int64) : Prop :=
  st.totalCounter = 0 ∧ st.counterCount = 0
    ∧ (st.noCounterReceived = true ∨ st.maxIncrement ≤ count ∧ count ≤ st.minIncrement)

end SedaStatsStore

namespace SedaStatsStage

/-- Once a statistic is created persistent, it is there in every state that follows, with what the
events of it since add up to. -/
def PersistentSurvives (s : SedaStatsStage) (ops : List StatsOp) : Prop :=
  ∀ pre ev post, ops = pre ++ .handleEvent ev :: post → ev.Stored → ev.persistent →
    (pre.foldl step s).stat ev.key = none → ∀ done, done <+: post →
      ((pre ++ .handleEvent ev :: done).foldl step s).stat ev.key
        = some ((ev :: done.filterMap (·.reports ev.key)).foldl .accumulate (.make true))

/-- What a clear of the category addresses. -/
def Addresses (category : ℤ) (sid : StatsId) (k : StatKey) : Prop :=
  (category = ALL_CATEGORY ∨ k.category = category) ∧ sid.Covers k.id

instance (category : ℤ) (sid : StatsId) (k : StatKey) : Decidable (Addresses category sid k) :=
  inferInstanceAs (Decidable (_ ∧ _))

/-- No clear leaves anything in a statistic that it addresses and that is not persistent. -/
def ClearsEmpty (s : SedaStatsStage) (ops : List StatsOp) : Prop :=
  ∀ pre category sid post, ops = pre ++ .clearStats category sid :: post →
    ∀ k st, Addresses category sid k → (pre.foldl step s).stat k = some st → st.persistent = false →
      (((pre.foldl step s).clearStats category sid).2.stat k = none
        ∨ ((pre.foldl step s).clearStats category sid).2.stat k = some (.make false))

/-- No persistent statistic is of a category that is meant and is not enabled. -/
def Spares (s : SedaStatsStage) (category : ℤ) : Prop :=
  ∀ k st, s.stat k = some st → st.persistent → (category = ALL_CATEGORY ∨ k.category = category) →
    s.isCategoryEnabled k.category

/-- An event does not make the total of the times of a persistent statistic overflow, nor reset its
counter once it is in use, and nothing drops a category with a persistent statistic. -/
def OpMeets (s : SedaStatsStage) : StatsOp → Prop
  | .handleEvent ev => ev.Stored → ∀ st, s.stat ev.key = some st → st.persistent →
    (ev.timeCollected → ¬st.totalTime + ev.statTime < st.totalTime)
      ∧ (ev.resetCount → st.CounterUnused ev.statCount.toInt64)
  | .clearStats category sid => sid = .ALL → s.Spares category
  | .removeCategory category => s.Spares category
  | .enableCategory _ => True
  | .disableCategory category =>
    (category = ALL_CATEGORY →
      (s.setInternal (fun i => decide (0 ≤ i ∧ i < MAX_NUM_CATEGORY)) false).Spares category)
    ∧ (category > ALL_CATEGORY ∧ category < DUMMY_END_CATEGORY →
      (s.setInternal (· == category) false).Spares category)

end SedaStatsStage

/-! ## A store -/

namespace SedaStatsStore

variable (st : SedaStatsStore) (ev : SedaStatsEvent)

theorem incCounter_persistent (count : Int64) :
    (st.incCounter count).persistent = st.persistent := by
  unfold incCounter
  dsimp only
  split_ifs <;> rfl

theorem incTotalTime_persistent (time : UInt64) :
    (st.incTotalTime time).persistent = st.persistent := by
  unfold incTotalTime
  dsimp only
  split_ifs <;> rfl

theorem report_persistent : (st.report ev).persistent = st.persistent := by
  unfold report
  dsimp only
  split_ifs <;> simp only [resetCounter, incCounter_persistent, incTotalTime_persistent]

theorem accumulate_persistent : (st.accumulate ev).persistent = st.persistent := by
  unfold accumulate
  dsimp only
  split_ifs <;> simp only [incCounter_persistent, incTotalTime_persistent]

theorem foldl_accumulate_persistent (evs : List SedaStatsEvent) :
    (evs.foldl accumulate st).persistent = st.persistent := by
  induction evs generalizing st with
  | nil => rfl
  | cons ev evs ih => rw [List.foldl_cons, ih, accumulate_persistent]

theorem ite_lt_eq_iff (p : Prop) [Decidable p] (a b : Int64) :
    (if p ∨ a < b then a else b) = a ↔ p ∨ a ≤ b := by
  split_ifs with h
  · exact iff_of_true rfl (h.imp_right Int64.le_of_lt)
  · obtain ⟨hp, hlt⟩ := not_or.1 h
    constructor
    · exact fun heq => .inr (Int64.le_of_eq heq.symm)
    · rintro (hp' | hle)
      · exact absurd hp' hp
      · exact Int64.le_antisymm (Int64.not_lt.1 hlt) hle

theorem ite_gt_eq_iff (p : Prop) [Decidable p] (a b : Int64) :
    (if p ∨ b < a then a else b) = a ↔ p ∨ b ≤ a := by
  split_ifs with h
  · exact iff_of_true rfl (h.imp_right Int64.le_of_lt)
  · obtain ⟨hp, hlt⟩ := not_or.1 h
    constructor
    · exact fun heq => .inr (Int64.le_of_eq heq)
    · rintro (hp' | hle)
      · exact absurd hp' hp
      · exact Int64.le_antisymm hle (Int64.not_lt.1 hlt)

theorem incCounter_eq_resetCounter_iff (count : Int64) :
    st.incCounter count = st.resetCounter count ↔ st.CounterUnused count := by
  rw [incCounter_eq]
  unfold resetCounter CounterUnused
  have hcount : st.counterCount + 1 = 1 ↔ st.counterCount = 0 := UInt64.add_eq_right
  simp only [mk.injEq, Int64.add_eq_right, true_and, and_true, ite_lt_eq_iff, ite_gt_eq_iff, hcount]
  constructor
  · rintro ⟨htotal, -, hmin, hmax, hcount⟩
    exact ⟨htotal, hcount, or_and_left.2 ⟨hmax, hmin⟩⟩
  · rintro ⟨htotal, hcount, hrange⟩
    obtain ⟨hmax, hmin⟩ := or_and_left.1 hrange
    refine ⟨htotal, ?_, hmin, hmax, hcount⟩
    rw [htotal, hcount]
    simp

/-- Without an overflow the time is added. -/
theorem incTotalTime_eq {time : UInt64} (h : ¬st.totalTime + time < st.totalTime) :
    st.incTotalTime time = { st.incTotalTime time with
      totalTime := st.totalTime + time, numEffectiveStat := st.numEffectiveStat + 1 } := by
  unfold incTotalTime
  dsimp only
  rw [if_neg h]
  split_ifs <;> rfl

theorem incTotalTime_totalTime (time : UInt64) : (st.incTotalTime time).totalTime
    = if st.totalTime + time < st.totalTime then time else st.totalTime + time := by
  unfold incTotalTime
  dsimp only
  split_ifs <;> rfl

theorem incCounter_totalTime (count : Int64) : (st.incCounter count).totalTime = st.totalTime := by
  rw [incCounter_eq]

theorem report_totalTime : (st.report ev).totalTime
    = if ev.timeCollected then (st.incTotalTime ev.statTime).totalTime else st.totalTime := by
  unfold report
  dsimp only
  split_ifs <;> simp only [incCounter_totalTime, resetCounter]

theorem accumulate_totalTime : (st.accumulate ev).totalTime
    = if ev.timeCollected then st.totalTime + ev.statTime else st.totalTime := by
  unfold accumulate
  dsimp only
  split_ifs <;> simp only [incCounter_totalTime]

/-- What a time leaves of the counter. -/
theorem counterUnused_incTotalTime (time : UInt64) (count : Int64) :
    (st.incTotalTime time).CounterUnused count ↔ st.CounterUnused count := by
  unfold incTotalTime CounterUnused
  dsimp only
  split_ifs <;> rfl

theorem report_eq_accumulate_iff : st.report ev = st.accumulate ev ↔
    (ev.timeCollected → ¬st.totalTime + ev.statTime < st.totalTime)
      ∧ (ev.resetCount → st.CounterUnused ev.statCount.toInt64) := by
  have htime : st.report ev = st.accumulate ev → ev.timeCollected →
      ¬st.totalTime + ev.statTime < st.totalTime := by
    intro h ht hover
    have heq := congrArg totalTime h
    rw [report_totalTime, accumulate_totalTime, if_pos ht, if_pos ht, incTotalTime_totalTime,
      if_pos hover, eq_comm, UInt64.add_eq_right] at heq
    rw [heq] at hover
    simp at hover
  -- with the time added the counts are left
  suffices hcount : (ev.timeCollected → ¬st.totalTime + ev.statTime < st.totalTime) →
      (st.report ev = st.accumulate ev ↔
        (ev.resetCount → st.CounterUnused ev.statCount.toInt64)) from
    ⟨fun h => ⟨htime h, (hcount (htime h)).1 h⟩, fun h => (hcount h.1).2 h.2⟩
  intro hover
  obtain ⟨st', hst', hunused⟩ : ∃ st' : SedaStatsStore,
      (if ev.timeCollected then st.incTotalTime ev.statTime else st) = st'
        ∧ (st'.CounterUnused ev.statCount.toInt64 ↔ st.CounterUnused ev.statCount.toInt64) := by
    refine ⟨_, rfl, ?_⟩
    split_ifs
    · exact counterUnused_incTotalTime _ _ _
    · rfl
  have hst : (if ev.timeCollected then { st.incTotalTime ev.statTime with
      totalTime := st.totalTime + ev.statTime
      numEffectiveStat := st.numEffectiveStat + 1 } else st) = st' := by
    rw [← hst']
    split_ifs with ht
    · exact (incTotalTime_eq st (hover ht)).symm
    · rfl
  unfold report accumulate
  dsimp only
  rw [hst', hst, ← hunused, ← incCounter_eq_resetCounter_iff]
  rcases ev.resetCount
  · exact iff_of_true rfl fun h => absurd h Bool.false_ne_true
  · rw [if_pos rfl, Bool.true_or, if_pos rfl]
    exact ⟨fun h _ => h.symm, fun h => (h rfl).symm⟩

theorem report_make (persistent : Bool) :
    (make persistent).report ev = (make persistent).accumulate ev := by
  rw [report_eq_accumulate_iff]
  refine ⟨fun _ => ?_, fun _ => ⟨rfl, rfl, .inl rfl⟩⟩
  show ¬(0 + ev.statTime < 0)
  simp

end SedaStatsStore

/-! ## A map -/

theorem find?_clearEntry {κ : Type} [LinearOrder κ] (m : OrderedMap κ SedaStatsStore)
    (removeflag : Bool) (k k' : κ) : (SedaStatsMap.clearEntry m removeflag k).2.find? k'
      = if k' = k then (m.find? k').bind (SedaStatsStore.clear removeflag) else m.find? k' := by
  unfold SedaStatsMap.clearEntry
  rcases hf : m.find? k with _ | st
  · split_ifs with h
    · rw [h, hf]
      rfl
    · rfl
  · rcases hc : st.clear removeflag with _ | st' <;> dsimp only <;> rw [hc] <;> dsimp only
    · rw [OrderedMap.find?_erase]
      split_ifs with h
      · rw [h, hf, Option.bind_some, hc]
      · rfl
    · rw [OrderedMap.find?_set]
      split_ifs with h
      · rw [h, hf, Option.bind_some, hc]
      · rfl

namespace SedaStatsMap

variable (m : SedaStatsMap) (id : ℤ ⊕ Str)

theorem find?_store (ev : SedaStatsEvent) : (m.SedaStatsMapStoreStats ev).find? id
    = if id = ev.statId.key then some (((m.find? id).getD (.make ev.persistent)).report ev)
      else m.find? id := by
  unfold SedaStatsMapStoreStats
  rcases ev.statId with n | strId | _ <;> rcases id with n' | strId' <;>
    simp only [find?, StatsId.key, StatsId.strId, OrderedMap.find?_set, Sum.inl.injEq,
      Sum.inr.injEq, reduceCtorEq, if_false] <;>
    split_ifs with h <;> first | rw [h] | rfl

theorem find?_clear (sid : StatsId) (removeflag : Bool) :
    (m.SedaStatsMapClearStats sid removeflag).2.find? id
      = if sid.Covers id then (m.find? id).bind (SedaStatsStore.clear removeflag)
        else m.find? id := by
  unfold SedaStatsMapClearStats
  rcases sid with n | strId | _ <;> rcases id with n' | strId' <;>
    simp [find?, StatsId.Covers, StatsId.key, StatsId.strId, find?_clearEntry,
      OrderedMap.find?_filterMap]

/-- A category after a clear, which may drop it. -/
theorem find?_cleared (sid : StatsId) (rmFlag : Bool) :
    (if sid = .ALL ∧ rmFlag then none else some (m.SedaStatsMapClearStats sid rmFlag).2).bind
        (·.find? id)
      = if sid.Covers id then
          if sid = .ALL ∧ rmFlag then none else (m.find? id).bind (SedaStatsStore.clear rmFlag)
        else m.find? id := by
  by_cases h : sid = .ALL ∧ rmFlag
  · rw [if_pos h, if_pos h, if_pos (.inl h.1), Option.bind_none]
  · rw [if_neg h, if_neg h, Option.bind_some, find?_clear]

end SedaStatsMap

/-! ## The stage -/

namespace SedaStatsStage

variable (s : SedaStatsStage) (k : StatKey)

theorem stat_storeStats (ev : SedaStatsEvent) : (s.storeStats ev).stat k
    = if ev.Stored ∧ ev.key = k then some (((s.stat k).getD (.make ev.persistent)).report ev)
      else s.stat k := by
  unfold storeStats stat SedaStatsEvent.Stored SedaStatsEvent.key
  by_cases hc : ev.category ≤ 0 ∨ ev.category ≥ MAX_NUM_CATEGORY
  · rw [if_pos hc, if_neg]
    rintro ⟨⟨h₁, h₂⟩, -⟩
    omega
  · have hstored : 0 < ev.category ∧ ev.category < MAX_NUM_CATEGORY := by omega
    obtain ⟨category, id⟩ := k
    rw [if_neg hc]
    simp only [hstored, and_self, true_and, StatKey.mk.injEq]
    rw [OrderedMap.find?_set]
    by_cases hcat : category = ev.category
    · subst hcat
      rw [if_pos rfl, Option.bind_some, SedaStatsMap.find?_store]
      simp only [true_and, eq_comm (a := id)]
      rcases s.categoryMap.find? ev.category with _ | m
      · rcases id with n | strId <;> rfl
      · rfl
    · rw [if_neg hcat, if_neg fun h => hcat h.1.symm]

theorem stat_clearStats (category : ℤ) (sid : StatsId) : (s.clearStats category sid).2.stat k
    = if Addresses category sid k then
        if sid = .ALL ∧ !s.isCategoryEnabled k.category then none
        else (s.stat k).bind (SedaStatsStore.clear !s.isCategoryEnabled k.category)
      else s.stat k := by
  unfold clearStats Addresses
  obtain ⟨c, id⟩ := k
  by_cases hall : category = ALL_CATEGORY
  · rw [if_neg (not_not.2 hall)]
    unfold stat
    dsimp only
    simp only [hall, true_or, true_and]
    rw [OrderedMap.find?_filterMap]
    rcases s.categoryMap.find? c with _ | m
    · simp
    · exact m.find?_cleared id sid _
  · rw [if_pos hall]
    simp only [hall, false_or]
    rcases hf : s.categoryMap.find? category with _ | m
    · dsimp only
      by_cases hc : c = category
      · unfold stat
        dsimp only
        rw [hc, hf]
        simp
      · rw [if_neg fun h => hc h.1]
    · have hcleared := m.find?_cleared id sid (!s.isCategoryEnabled category)
      by_cases hc : c = category
      · subst hc
        have hstat : s.stat ⟨c, id⟩ = m.find? id := by
          unfold stat
          rw [hf, Option.bind_some]
        rw [hstat]
        simp only [true_and]
        rw [← hcleared]
        unfold stat
        split_ifs <;> simp [OrderedMap.find?_erase, OrderedMap.find?_set]
      · rw [if_neg fun h => hc h.1]
        unfold stat
        split_ifs <;> simp [OrderedMap.find?_erase, OrderedMap.find?_set, hc]

theorem stat_removeCategory (category : ℤ) : (s.removeCategory category).2.stat k
    = if (category = ALL_CATEGORY ∨ k.category = category) ∧ !s.isCategoryEnabled k.category then
        none
      else s.stat k := by
  unfold removeCategory
  obtain ⟨c, id⟩ := k
  by_cases hall : category = ALL_CATEGORY
  · rw [if_neg (not_not.2 hall)]
    unfold stat
    dsimp only
    simp only [hall, true_or, true_and]
    rw [OrderedMap.find?_filterMap]
    rcases s.categoryMap.find? c with _ | m <;> rcases s.isCategoryEnabled c <;> simp
  · rw [if_pos hall]
    simp only [hall, false_or]
    by_cases hc : c = category
    · subst hc
      rcases s.isCategoryEnabled c
      · rcases hf : s.categoryMap.find? c with _ | m <;> simp [stat, hf, OrderedMap.find?_erase]
      · simp
    · have hne : ¬(c = category ∧ (!s.isCategoryEnabled c) = true) := fun h => hc h.1
      rw [if_neg hne]
      split_ifs <;> simp [stat, OrderedMap.find?_erase, hc]

/-! ## What a step keeps -/

/-- The statistics that are persistent. -/
def persistentStat (s : SedaStatsStage) (k : StatKey) : Option SedaStatsStore :=
  (s.stat k).filter (·.persistent)

/-- What the operation adds to a store. -/
def accumulateOp (k : StatKey) (op : StatsOp) (st : SedaStatsStore) : SedaStatsStore :=
  match op.reports k with
  | none => st
  | some ev => st.accumulate ev

variable {s k} {st : SedaStatsStore}

theorem persistentStat_eq_some_iff :
    s.persistentStat k = some st ↔ s.stat k = some st ∧ st.persistent = true :=
  Option.filter_eq_some_iff

theorem persistentStat_eq_none_iff :
    s.persistentStat k = none ↔ ∀ st, s.stat k = some st → st.persistent = false := by
  unfold persistentStat
  rw [Option.filter_eq_none_iff]
  simp

theorem clear_of_persistent (h : st.persistent = true) (removeflag : Bool) :
    st.clear removeflag = some st := if_pos h

/-- What drops the categories that are meant and not enabled keeps the persistent statistics exactly
if there are none in these. -/
theorem spares_iff {t : SedaStatsStage} {category : ℤ}
    (ht : ∀ k st, s.persistentStat k = some st → t.stat k
      = if (category = ALL_CATEGORY ∨ k.category = category) ∧ !s.isCategoryEnabled k.category then
          none
        else some st) :
    s.Spares category ↔ ∀ k st, s.persistentStat k = some st → t.persistentStat k = some st := by
  constructor
  · intro h k st hst
    obtain ⟨hstat, hp⟩ := persistentStat_eq_some_iff.1 hst
    rw [persistentStat_eq_some_iff, ht k st hst, if_neg]
    · exact ⟨rfl, hp⟩
    · rintro ⟨hcat, hdis⟩
      rw [h k st hstat hp hcat] at hdis
      cases hdis
  · intro h k st hstat hp hcat
    have hst := persistentStat_eq_some_iff.2 ⟨hstat, hp⟩
    have hkeep := (persistentStat_eq_some_iff.1 (h k st hst)).1
    rw [ht k st hst] at hkeep
    split_ifs at hkeep with hdrop
    have hen : (!s.isCategoryEnabled k.category) ≠ true := fun hen => hdrop ⟨hcat, hen⟩
    simpa using hen

theorem spares_iff_removeCategory (category : ℤ) : s.Spares category ↔
    ∀ k st, s.persistentStat k = some st →
      (s.removeCategory category).2.persistentStat k = some st := by
  refine spares_iff fun k st hst => ?_
  rw [stat_removeCategory, (persistentStat_eq_some_iff.1 hst).1]

theorem opMeets_storeStats_iff (ev : SedaStatsEvent) : s.OpMeets (.handleEvent ev) ↔
    ∀ k st, s.persistentStat k = some st →
      (s.storeStats ev).persistentStat k = some (accumulateOp k (.handleEvent ev) st) := by
  have hkey : ∀ k st, s.persistentStat k = some st → ((s.storeStats ev).persistentStat k
      = some (accumulateOp k (.handleEvent ev) st) ↔
        (ev.Stored ∧ ev.key = k → st.report ev = st.accumulate ev)) := by
    intro k st hst
    obtain ⟨hstat, hp⟩ := persistentStat_eq_some_iff.1 hst
    rw [persistentStat_eq_some_iff, stat_storeStats, hstat]
    unfold accumulateOp StatsOp.reports
    dsimp only
    split_ifs with h
    · simp only [Option.getD_some, Option.some.injEq, h, and_self, true_implies]
      refine and_iff_left ?_
      rw [SedaStatsStore.accumulate_persistent]
      exact hp
    · exact iff_of_true ⟨rfl, hp⟩ fun hk => absurd hk h
  constructor
  · intro h k st hst
    rw [hkey k st hst]
    rintro ⟨hstored, rfl⟩
    obtain ⟨hstat, hp⟩ := persistentStat_eq_some_iff.1 hst
    exact (st.report_eq_accumulate_iff ev).2 (h hstored st hstat hp)
  · intro h hstored st hstat hp
    have hst := persistentStat_eq_some_iff.2 ⟨hstat, hp⟩
    exact (st.report_eq_accumulate_iff ev).1 ((hkey _ st hst).1 (h _ st hst) ⟨hstored, rfl⟩)

theorem opMeets_clearStats_iff (category : ℤ) (sid : StatsId) :
    s.OpMeets (.clearStats category sid) ↔ ∀ k st, s.persistentStat k = some st →
      (s.clearStats category sid).2.persistentStat k = some st := by
  have hstat : ∀ k st, s.persistentStat k = some st → (s.clearStats category sid).2.stat k
      = if sid = .ALL ∧ (category = ALL_CATEGORY ∨ k.category = category)
          ∧ !s.isCategoryEnabled k.category then none else some st := by
    intro k st hst
    obtain ⟨hstat, hp⟩ := persistentStat_eq_some_iff.1 hst
    rw [stat_clearStats, hstat, Option.bind_some, clear_of_persistent hp]
    unfold Addresses
    by_cases hall : sid = .ALL
    · subst hall
      have hcov : StatsId.ALL.Covers k.id := .inl rfl
      by_cases hcat : category = ALL_CATEGORY ∨ k.category = category <;> simp [hcov, hcat]
    · simp [hall]
  show (sid = .ALL → s.Spares category) ↔ _
  by_cases hall : sid = .ALL
  · rw [forall_prop_of_true hall]
    refine spares_iff fun k st hst => ?_
    rw [hstat k st hst]
    simp [hall]
  · refine iff_of_true (fun h => absurd h hall) fun k st hst => ?_
    rw [persistentStat_eq_some_iff, hstat k st hst, if_neg fun h => hall h.1]
    exact ⟨rfl, (persistentStat_eq_some_iff.1 hst).2⟩

/-- A step keeps all the persistent statistics exactly if it meets the conditions. -/
theorem opMeets_iff (s : SedaStatsStage) (op : StatsOp) : s.OpMeets op ↔
    ∀ k st, s.persistentStat k = some st →
      (s.step op).persistentStat k = some (accumulateOp k op st) := by
  cases op with
  | handleEvent ev => exact opMeets_storeStats_iff ev
  | clearStats category sid => exact opMeets_clearStats_iff category sid
  | removeCategory category => exact spares_iff_removeCategory category
  | enableCategory category =>
    refine iff_of_true trivial fun k st hst => ?_
    show (s.enableCategory category).persistentStat k = some st
    unfold enableCategory
    split_ifs <;> exact hst
  | disableCategory category =>
    show _ ↔ ∀ k st, s.persistentStat k = some st →
      (s.disableCategory category).persistentStat k = some st
    unfold OpMeets disableCategory
    dsimp only
    by_cases hall : category = ALL_CATEGORY
    · have hpos : ¬(category > ALL_CATEGORY ∧ category < DUMMY_END_CATEGORY) := by
        rw [hall]
        decide
      rw [if_pos hall, forall_prop_of_true hall, and_iff_left fun h => absurd h hpos]
      exact spares_iff_removeCategory category
    · rw [if_neg hall, and_iff_right fun h => absurd h hall]
      by_cases hpos : category > ALL_CATEGORY ∧ category < DUMMY_END_CATEGORY
      · rw [if_pos hpos, forall_prop_of_true hpos]
        exact spares_iff_removeCategory category
      · rw [if_neg hpos]
        exact iff_of_true (fun h => absurd h hpos) fun k st hst => hst

/-! ## What a step makes -/

theorem persistentStat_removeCategory (hnone : s.persistentStat k = none) (category : ℤ) :
    (s.removeCategory category).2.persistentStat k = none := by
  rw [persistentStat_eq_none_iff] at hnone ⊢
  intro st hst
  rw [stat_removeCategory] at hst
  split_ifs at hst
  exact hnone st hst

theorem persistentStat_clearStats (hnone : s.persistentStat k = none) (category : ℤ)
    (sid : StatsId) : (s.clearStats category sid).2.persistentStat k = none := by
  rw [persistentStat_eq_none_iff] at hnone ⊢
  intro st hst
  rw [stat_clearStats] at hst
  split_ifs at hst
  · obtain ⟨u, hu, hclear⟩ := Option.bind_eq_some_iff.1 hst
    unfold SedaStatsStore.clear at hclear
    split_ifs at hclear with hp
    · exact absurd hp (by rw [hnone u hu]; decide)
    · obtain rfl := Option.some.inj hclear
      exact hnone u hu
  · exact hnone st hst

/-- A statistic that is persistent after a step and was not before has been created by an event. -/
theorem born {op : StatsOp} (hnone : s.persistentStat k = none)
    (hst : (s.step op).persistentStat k = some st) :
    ∃ ev, op = .handleEvent ev ∧ ev.Stored ∧ ev.key = k ∧ ev.persistent = true
      ∧ s.stat k = none ∧ st = (SedaStatsStore.make true).accumulate ev := by
  cases op with
  | handleEvent ev =>
    obtain ⟨hstat, hp⟩ := persistentStat_eq_some_iff.1 hst
    have hold := persistentStat_eq_none_iff.1 hnone
    change (s.storeStats ev).stat k = some st at hstat
    rw [stat_storeStats] at hstat
    split_ifs at hstat with h
    · obtain rfl := Option.some.inj hstat
      rw [SedaStatsStore.report_persistent] at hp
      rcases hk : s.stat k with _ | u
      · rw [hk] at hp
        have hev : ev.persistent = true := hp
        refine ⟨ev, rfl, h.1, h.2, hev, rfl, ?_⟩
        rw [Option.getD_none, hev, SedaStatsStore.report_make]
      · rw [hk, Option.getD_some, hold u hk] at hp
        cases hp
    · rw [hold st hstat] at hp
      cases hp
  | clearStats category sid =>
    change (s.clearStats category sid).2.persistentStat k = some st at hst
    rw [persistentStat_clearStats hnone] at hst
    cases hst
  | removeCategory category =>
    change (s.removeCategory category).2.persistentStat k = some st at hst
    rw [persistentStat_removeCategory hnone] at hst
    cases hst
  | enableCategory category =>
    change (s.enableCategory category).persistentStat k = some st at hst
    unfold enableCategory at hst
    split_ifs at hst <;> exact absurd (hnone.symm.trans hst) (by simp)
  | disableCategory category =>
    change (s.disableCategory category).persistentStat k = some st at hst
    unfold disableCategory at hst
    split_ifs at hst
    · rw [persistentStat_removeCategory (s := s.setInternal _ _) hnone] at hst
      cases hst
    · rw [persistentStat_removeCategory (s := s.setInternal _ _) hnone] at hst
      cases hst
    · exact absurd (hnone.symm.trans hst) (by simp)

/-- An event that finds no statistic makes one. -/
theorem persistentStat_of_new {ev : SedaStatsEvent} (hstored : ev.Stored)
    (hp : ev.persistent = true) (hnone : s.stat ev.key = none) :
    (s.storeStats ev).persistentStat ev.key
      = some ((SedaStatsStore.make true).accumulate ev) := by
  rw [persistentStat_eq_some_iff, stat_storeStats, if_pos ⟨hstored, rfl⟩, hnone, Option.getD_none,
    hp, SedaStatsStore.report_make]
  exact ⟨rfl, SedaStatsStore.accumulate_persistent _ ev⟩

theorem updates_eq_foldl (k : StatKey) (ops : List StatsOp) (st : SedaStatsStore) :
    Machine.updates accumulateOp k ops st
      = (ops.filterMap (·.reports k)).foldl .accumulate st := by
  induction ops generalizing st with
  | nil => rfl
  | cons op ops ih =>
    show Machine.updates accumulateOp k ops (accumulateOp k op st) = _
    rw [ih, List.filterMap_cons]
    unfold accumulateOp
    rcases op.reports k with _ | ev <;> rfl

/-- What persists is what a run makes and keeps. -/
theorem persistentSurvives_iff_keptFromBirth {s : SedaStatsStage} {ops : List StatsOp} :
    s.PersistentSurvives ops ↔ Machine.KeptFromBirth step persistentStat accumulateOp s ops := by
  constructor
  · intro h pre op post hops k st hnone hst done hdone
    obtain ⟨ev, rfl, hstored, rfl, hp, hstat, rfl⟩ := born hnone hst
    have hkept := h pre ev post hops hstored hp hstat done hdone
    rw [List.foldl_append, List.foldl_cons, List.foldl_cons] at hkept
    rw [persistentStat_eq_some_iff, updates_eq_foldl]
    refine ⟨hkept, ?_⟩
    rw [SedaStatsStore.foldl_accumulate_persistent, SedaStatsStore.accumulate_persistent]
    rfl
  · intro h pre ev post hops hstored hp hstat done hdone
    have hnone : (pre.foldl step s).persistentStat ev.key = none := by
      rw [persistentStat_eq_none_iff, hstat]
      intro st hst
      cases hst
    have hkept := h pre _ post hops _ _ hnone (persistentStat_of_new hstored hp hstat) done hdone
    rw [persistentStat_eq_some_iff, updates_eq_foldl] at hkept
    rw [List.foldl_append, List.foldl_cons, List.foldl_cons]
    exact hkept.1

/-- A clear leaves no value in what it addresses and is not persistent. -/
theorem clearsEmpty (s : SedaStatsStage) (ops : List StatsOp) : s.ClearsEmpty ops := by
  intro pre category sid post _ k st haddr hstat hp
  rw [stat_clearStats, if_pos haddr, hstat, Option.bind_some]
  unfold SedaStatsStore.clear SedaStatsStore.reset
  rw [hp, if_neg Bool.false_ne_true]
  split_ifs <;> simp

/-- The stage before the first event. -/
def fresh (collectEnabled : Bool) (externalCategoryEnableMap internalCategoryEnableMap : ℤ → Bool) :
    SedaStatsStage where
  collectEnabled
  externalCategoryEnableMap
  internalCategoryEnableMap

/-- Persistent statistics survive a run, whatever is enabled, and the clears of it empty the others,
if and only if its operations meet the conditions. -/
theorem persistentSurvives_iff (collectEnabled : Bool)
    (externalCategoryEnableMap internalCategoryEnableMap : ℤ → Bool) (ops : List StatsOp) :
    let s := fresh collectEnabled externalCategoryEnableMap internalCategoryEnableMap
    (s.PersistentSurvives ops ∧ s.ClearsEmpty ops) ↔ (Machine.total step).Meets OpMeets s ops := by
  intro s
  rw [and_iff_left (clearsEmpty s ops), persistentSurvives_iff_keptFromBirth]
  exact Machine.keptFromBirth_iff opMeets_iff (fun k => rfl) ops

/-- A reset of the counter, a clear of all statistics while none are collected, and a category that
is disabled. -/
theorem not_persistentSurvives :
    let s := fresh false (fun _ => false) (fun _ => false)
    let ev : SedaStatsEvent :=
      { category := 100, statId := .ID 100, statCount := 5, countCollected := true,
        persistent := true }
    ¬s.PersistentSurvives
        [.handleEvent ev, .handleEvent { ev with statCount := 0, resetCount := true }]
      ∧ ¬s.PersistentSurvives [.handleEvent ev, .clearStats 100 .ALL]
      ∧ ¬s.PersistentSurvives [.handleEvent ev, .disableCategory 100] := by
  intro s ev
  have hlost : ∀ op : StatsOp, ([.handleEvent ev, op].foldl step s).stat ev.key
        ≠ some ((ev :: [op].filterMap (·.reports ev.key)).foldl .accumulate (.make true)) →
      ¬s.PersistentSurvives [.handleEvent ev, op] := fun op hne h =>
    hne (h [] ev [op] rfl ⟨by decide, by decide⟩ rfl rfl _ (List.prefix_refl _))
  exact ⟨hlost _ (by decide), hlost _ (by decide), hlost _ (by decide)⟩

end SedaStatsStage

end Longda
