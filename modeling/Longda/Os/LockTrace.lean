import Longda.Lang.Lstring
import Mathlib.Data.Finset.Insert
import Mathlib.Data.Finset.Erase
import Mathlib.Data.Nat.Notation
import Mathlib.Logic.Function.Basic
import Mathlib.Logic.Relation

/-!
# The tables of the lock tracer

`CLockTrace` keeps for each mutex the thread that has it and how many wait for it, and for each
thread the mutex it waits for and those it has. Before a thread waits, `deadlockCheck` looks whether
the owner of the mutex waits for one of the thread's own. So it sees a cycle of one thread or two,
and no longer one (`deadlockCheck_iff`).
-/

namespace Longda

/-- The address of a mutex. -/
abbrev Mutex := ℕ

/-- What `gettid` returns. -/
abbrev Tid := ℤ

structure CLockID where
  mFile : Str := []
  mThreadId : Tid := 0
  mLine : ℤ := 0
  deriving DecidableEq

structure CLockTrace where
  mLocks : Mutex → Option CLockID := fun _ => none
  mWaitTimes : Mutex → Option ℤ := fun _ => none
  mWaitLocks : Tid → Option Mutex := fun _ => none
  mOwnLocks : Tid → Option (Finset Mutex) := fun _ => none
  mMaxBlockTids : ℤ := 8

namespace CLockTrace

def deadlockCheck (tr : CLockTrace) (mutex : Mutex) (threadId : Tid) : CLockTrace × Bool :=
  let tr := { tr with mWaitLocks := Function.update tr.mWaitLocks threadId (some mutex) }
  match tr.mLocks mutex with
  | none => (tr, false)
  | some other =>
    match tr.mOwnLocks threadId with
    | none => (tr, false)
    | some ownMutexs =>
      match tr.mWaitLocks other.mThreadId with
      | none => (tr, false)
      | some otherWaitMutex => (tr, decide (otherWaitMutex ∈ ownMutexs))

/-- The warning reads `mLocks[mutex]`, which makes an entry where there is none. -/
def checkAllThreadsBlock (tr : CLockTrace) (mutex : Mutex) : CLockTrace × Bool :=
  match tr.mWaitTimes mutex with
  | none => ({ tr with mWaitTimes := Function.update tr.mWaitTimes mutex (some 1) }, false)
  | some lockTimes =>
    let tr := { tr with mWaitTimes := Function.update tr.mWaitTimes mutex (some (lockTimes + 1)) }
    if lockTimes ≥ tr.mMaxBlockTids then
      ({ tr with mLocks := Function.update tr.mLocks mutex (some ((tr.mLocks mutex).getD {})) },
        true)
    else (tr, false)

def check (tr : CLockTrace) (mutex : Mutex) (threadId : Tid) : CLockTrace :=
  ((tr.deadlockCheck mutex threadId).1.checkAllThreadsBlock mutex).1

def insertLock (tr : CLockTrace) (mutex : Mutex) (lockID : CLockID) : CLockTrace :=
  { tr with
    mLocks := Function.update tr.mLocks mutex (some lockID)
    mWaitLocks := Function.update tr.mWaitLocks lockID.mThreadId none
    mOwnLocks := Function.update tr.mOwnLocks lockID.mThreadId
      (some (insert mutex ((tr.mOwnLocks lockID.mThreadId).getD ∅)))
    mWaitTimes := match tr.mWaitTimes mutex with
      | none => tr.mWaitTimes
      | some times => Function.update tr.mWaitTimes mutex (some (times - 1)) }

def lock (tr : CLockTrace) (mutex : Mutex) (lockID : CLockID) : CLockTrace :=
  tr.insertLock mutex lockID

def unlock (tr : CLockTrace) (mutex : Mutex) (threadId : Tid) : CLockTrace :=
  { tr with
    mLocks := Function.update tr.mLocks mutex none
    mOwnLocks := Function.update tr.mOwnLocks threadId
      (some (((tr.mOwnLocks threadId).getD ∅).erase mutex)) }

/-! ## What the tables say -/

def owner (tr : CLockTrace) (mutex : Mutex) : Option Tid := (tr.mLocks mutex).map CLockID.mThreadId

def owned (tr : CLockTrace) (threadId : Tid) : Finset Mutex := (tr.mOwnLocks threadId).getD ∅

def waiters (tr : CLockTrace) (mutex : Mutex) : ℤ := (tr.mWaitTimes mutex).getD 0

/-- A thread has the mutexes that it is the owner of. -/
def Accurate (tr : CLockTrace) : Prop :=
  ∀ mutex threadId, tr.owner mutex = some threadId ↔ mutex ∈ tr.owned threadId

/-- The thread waits for a mutex that the other one has. -/
def WaitsFor (tr : CLockTrace) (threadId other : Tid) : Prop :=
  ∃ mutex, tr.mWaitLocks threadId = some mutex ∧ tr.owner mutex = some other

/-- The tables when the thread waits for the mutex too. -/
def waiting (tr : CLockTrace) (mutex : Mutex) (threadId : Tid) : CLockTrace :=
  { tr with mWaitLocks := Function.update tr.mWaitLocks threadId (some mutex) }

/-- When the thread waits for the mutex, it waits for itself in the end. -/
def ClosesCycle (tr : CLockTrace) (mutex : Mutex) (threadId : Tid) : Prop :=
  Relation.TransGen (tr.waiting mutex threadId).WaitsFor threadId threadId

/-- The mutex has another owner, which waits for a third thread, which leads back to this one. -/
def LongCycle (tr : CLockTrace) (mutex : Mutex) (threadId : Tid) : Prop :=
  ∃ other third, tr.owner mutex = some other ∧ other ≠ threadId ∧ tr.WaitsFor other third ∧
    third ≠ threadId ∧ Relation.TransGen tr.WaitsFor third threadId

/-! ## What the tracer's calls do to the tables -/

section Tables

variable {tr : CLockTrace} {m m' : Mutex} {t t' u : Tid} {lockID : CLockID}

@[simp] theorem deadlockCheck_fst : (tr.deadlockCheck m t).1 = tr.waiting m t := by
  unfold deadlockCheck waiting
  dsimp only
  split
  · rfl
  · split
    · rfl
    · split <;> rfl

theorem check_mWaitLocks :
    (tr.check m t).mWaitLocks = Function.update tr.mWaitLocks t (some m) := by
  rw [check, deadlockCheck_fst, checkAllThreadsBlock]
  dsimp only
  split
  · rfl
  · split_ifs <;> rfl

theorem check_owned : (tr.check m t).owned t' = tr.owned t' := by
  rw [check, deadlockCheck_fst, checkAllThreadsBlock]
  dsimp only
  split
  · rfl
  · split_ifs <;> rfl

theorem check_waiters : (tr.check m t).waiters m' = tr.waiters m' + if m' = m then 1 else 0 := by
  rw [check, deadlockCheck_fst, checkAllThreadsBlock]
  dsimp only
  split
  · next hnone =>
    have hnone : tr.mWaitTimes m = none := hnone
    by_cases hm : m' = m <;> simp [waiters, waiting, hm, hnone]
  · next times htimes =>
    have htimes : tr.mWaitTimes m = some times := htimes
    split_ifs <;> simp_all [waiters, waiting]

/-- The check keeps the owners there are, and may only make one up for the mutex. -/
theorem check_owner_of_some (h : tr.owner m' = some u) : (tr.check m t).owner m' = some u := by
  rw [check, deadlockCheck_fst, checkAllThreadsBlock]
  dsimp only
  split
  · exact h
  · split_ifs
    · obtain ⟨lockID, hlock, rfl⟩ := Option.map_eq_some_iff.1 h
      by_cases hm : m' = m
      · subst hm
        simp [owner, waiting, hlock]
      · simp [owner, waiting, hm, hlock]
    · exact h

theorem owner_of_check_owner (h : (tr.check m t).owner m' = some u) (hm : m' ≠ m) :
    tr.owner m' = some u := by
  rw [check, deadlockCheck_fst, checkAllThreadsBlock] at h
  dsimp only at h
  split at h
  · exact h
  · split_ifs at h
    · simpa [owner, waiting, hm] using h
    · exact h

theorem lock_owner : (tr.lock m lockID).owner m' =
    if m' = m then some lockID.mThreadId else tr.owner m' := by
  by_cases hm : m' = m <;> simp [lock, insertLock, owner, hm]

theorem lock_owned : (tr.lock m lockID).owned t' =
    if t' = lockID.mThreadId then insert m (tr.owned t') else tr.owned t' := by
  by_cases ht : t' = lockID.mThreadId <;>
    simp [lock, insertLock, owned, ht]

theorem lock_mWaitLocks : (tr.lock m lockID).mWaitLocks =
    Function.update tr.mWaitLocks lockID.mThreadId none := rfl

theorem lock_waiters (h : tr.waiters m ≠ 0) :
    (tr.lock m lockID).waiters m' = tr.waiters m' - if m' = m then 1 else 0 := by
  unfold waiters lock insertLock at *
  dsimp only at *
  rcases htimes : tr.mWaitTimes m with _ | times
  · simp [htimes] at h
  · by_cases hm : m' = m <;> simp [hm, htimes]

theorem unlock_owner : (tr.unlock m t).owner m' = if m' = m then none else tr.owner m' := by
  by_cases hm : m' = m <;> simp [unlock, owner, hm]

theorem unlock_owned : (tr.unlock m t).owned t' =
    if t' = t then (tr.owned t').erase m else tr.owned t' := by
  by_cases ht : t' = t <;> simp [unlock, owned, ht]

end Tables

/-! ## What the check finds -/

section Deadlock

variable {tr : CLockTrace} {mutex : Mutex} {threadId t u v : Tid}

theorem waitsFor_unique (hu : tr.WaitsFor t u) (hv : tr.WaitsFor t v) : u = v := by
  obtain ⟨m, hm, hu⟩ := hu
  obtain ⟨m', hm', hv⟩ := hv
  obtain rfl := Option.some.inj (hm.symm.trans hm')
  exact Option.some.inj (hu.symm.trans hv)

@[simp] theorem waiting_self :
    (tr.waiting mutex threadId).WaitsFor threadId u ↔ tr.owner mutex = some u := by
  simp [WaitsFor, waiting, owner]

theorem waiting_of_ne (hne : t ≠ threadId) :
    (tr.waiting mutex threadId).WaitsFor t u ↔ tr.WaitsFor t u := by
  simp [WaitsFor, waiting, owner, hne]

/-- The check follows the chain for two steps. -/
theorem deadlockCheck_eq_true (hacc : tr.Accurate) :
    (tr.deadlockCheck mutex threadId).2 = true ↔
      ∃ other, tr.owner mutex = some other ∧
        (tr.waiting mutex threadId).WaitsFor other threadId := by
  have hown : ∀ m, m ∈ tr.owned threadId ↔ (tr.waiting mutex threadId).owner m = some threadId :=
    fun m => (hacc m threadId).symm
  unfold deadlockCheck
  rcases hlocks : tr.mLocks mutex with _ | other
  · simp [owner, hlocks]
  rcases howned : tr.mOwnLocks threadId with _ | ownMutexs
  · have hnone : ∀ m, (tr.waiting mutex threadId).owner m ≠ some threadId := fun m => by
      rw [Ne, ← hown, owned, howned]
      exact Finset.notMem_empty m
    simp [hlocks, howned, WaitsFor, hnone]
  have hmem : tr.owned threadId = ownMutexs := by rw [owned, howned, Option.getD_some]
  rcases hwait : (tr.waiting mutex threadId).mWaitLocks other.mThreadId with _ | otherWaitMutex
  · simp only [waiting] at hwait
    simp [owner, hlocks, howned, WaitsFor, waiting, hwait]
  · have hwait' := hwait
    simp only [waiting] at hwait'
    have hback : otherWaitMutex ∈ ownMutexs ↔
        (tr.waiting mutex threadId).owner otherWaitMutex = some threadId := by rw [← hmem, hown]
    simp [owner, hlocks, howned, hwait', WaitsFor, hwait, hback]

/-- The new edge does not matter on the way to the thread. -/
theorem transGen_waiting {r r' : Tid → Tid → Prop} (hr : ∀ t u, t ≠ threadId → (r t u → r' t u))
    (h : Relation.TransGen r t threadId) : t ≠ threadId → Relation.TransGen r' t threadId := by
  induction h using Relation.TransGen.head_induction_on with
  | single h => exact fun hne => .single (hr _ _ hne h)
  | @head t u h _ ih =>
    intro hne
    by_cases hu : u = threadId
    · exact .single (hr t threadId hne (hu ▸ h))
    · exact .head (hr t u hne h) (ih hu)

/-- A cycle is seen, or it is a long one. -/
theorem closesCycle_iff (hacc : tr.Accurate) : tr.ClosesCycle mutex threadId ↔
    (tr.deadlockCheck mutex threadId).2 = true ∨ tr.LongCycle mutex threadId := by
  rw [deadlockCheck_eq_true hacc]
  constructor
  · intro h
    obtain ⟨other, hother, hrest⟩ := Relation.TransGen.head'_iff.1 h
    rw [waiting_self] at hother
    rcases Relation.reflTransGen_iff_eq_or_transGen.1 hrest with rfl | hrest
    · exact .inl ⟨threadId, hother, waiting_self.2 hother⟩
    by_cases hself : other = threadId
    · exact .inl ⟨other, hother, hself ▸ waiting_self.2 (hself ▸ hother)⟩
    obtain ⟨third, hthird, hlast⟩ := Relation.TransGen.head'_iff.1 hrest
    by_cases hback : third = threadId
    · exact .inl ⟨other, hother, hback ▸ hthird⟩
    have hlast := (Relation.reflTransGen_iff_eq_or_transGen.1 hlast).resolve_left (Ne.symm hback)
    refine .inr ⟨other, third, hother, hself, (waiting_of_ne hself).1 hthird, hback, ?_⟩
    exact transGen_waiting (fun t u hne => (waiting_of_ne hne).1) hlast hback
  · rintro (⟨other, hother, hback⟩ | ⟨other, third, hother, hself, hthird, hback, hlast⟩)
    · exact .head (waiting_self.2 hother) (.single hback)
    · refine .head (waiting_self.2 hother) (.head ((waiting_of_ne hself).2 hthird) ?_)
      exact transGen_waiting (fun t u hne => (waiting_of_ne hne).2) hlast hback

/-- The check is right if and only if the thread would not close a long cycle. -/
theorem deadlockCheck_iff (hacc : tr.Accurate) (mutex : Mutex) (threadId : Tid) :
    ((tr.deadlockCheck mutex threadId).2 = true ↔ tr.ClosesCycle mutex threadId) ↔
      ¬ tr.LongCycle mutex threadId := by
  rw [closesCycle_iff hacc]
  refine ⟨fun h hlong => ?_, fun hlong => (or_iff_left hlong).symm⟩
  -- a chain that is back after two steps does not lead to a third thread
  obtain ⟨other, hother, hback⟩ := (deadlockCheck_eq_true hacc).1 (h.2 (.inr hlong))
  obtain ⟨other', third, hother', hself, hthird, hne, -⟩ := hlong
  obtain rfl := Option.some.inj (hother.symm.trans hother')
  exact hne (waitsFor_unique hthird ((waiting_of_ne hself).1 hback))

/-- Thread 2 has mutex 20 and waits for 30, thread 3 has 30 and waits for 10, and thread 1 has
10. -/
def threeThreads : CLockTrace where
  mLocks := fun m => if m = 10 then some { mThreadId := 1 } else if m = 20 then
    some { mThreadId := 2 } else if m = 30 then some { mThreadId := 3 } else none
  mWaitLocks := fun t => if t = 2 then some 30 else if t = 3 then some 10 else none
  mOwnLocks := fun t => if t = 1 then some {10} else if t = 2 then some {20} else if t = 3 then
    some {30} else none

theorem threeThreads_accurate : threeThreads.Accurate := by
  intro mutex threadId
  dsimp only [owner, owned, threeThreads]
  split_ifs <;> simp_all
  all_goals exact Ne.symm (by assumption)

theorem deadlockCheck_iff_three :
    ((threeThreads.deadlockCheck 20 1).2 = true ↔ threeThreads.ClosesCycle 20 1) ↔
      ¬ threeThreads.LongCycle 20 1 :=
  deadlockCheck_iff threeThreads_accurate 20 1

/-- The check says no, and the three threads wait for each other. -/
theorem deadlockCheck_misses : threeThreads.Accurate ∧
    ¬ ((threeThreads.deadlockCheck 20 1).2 = true ↔ threeThreads.ClosesCycle 20 1) := by
  refine ⟨threeThreads_accurate, fun h => ?_⟩
  have hcycle : threeThreads.ClosesCycle 20 1 :=
    .head (b := 2) ⟨20, rfl, rfl⟩ (.head (b := 3) ⟨30, rfl, rfl⟩ (.single ⟨10, rfl, rfl⟩))
  exact absurd (h.2 hcycle) (by decide)

end Deadlock

end CLockTrace

end Longda
