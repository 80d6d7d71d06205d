import Longda.Lib.Machine
import Longda.Os.LockTrace
import Mathlib.Data.Finset.Card

/-!
# The lock tracer and the locks

Under `DEBUG_LOCK` each macro calls the tracer beside the call of pthreads that it stands for. The
calls are steps of their own, and those of other threads come between them. A mutex with error
checks refuses the lock of its owner and the unlock of any other thread, and the macros trace both
as if it had not. Five things put the tables wrong: a `trylock` that fails stays in them as a wait,
a timed wait that ends with an error takes the mutex back without them, `MUTEX_UNLOCK` may clear
them when another thread has the mutex, a wait with a mutex of another thread takes it over in them,
and the owner that a warning makes up may outlast the one that is about to wait. Without these the
tables are right whenever no macro is halfway, unless a thread waits to get a mutex back that it
gave up for a condition (`tables_mirror`).
-/

namespace Longda

open Lib CLockTrace

namespace LockMirror

/-- Where a thread is in which macro, with the mutex of the macro. -/
inductive Pc where
  /-- In none of the macros. -/
  | idle
  /-- Before `pthread_mutex_lock`, and in it. -/
  | locking (m : Mutex)
  | blocked (m : Mutex)
  /-- Before `pthread_mutex_trylock`. -/
  | trying (m : Mutex)
  /-- With the mutex, before `CLockTrace::lock`. -/
  | locked (m : Mutex)
  /-- There when the thread had the mutex already. -/
  | relocked (m : Mutex)
  /-- Behind `pthread_mutex_unlock`, and there when the thread did not have the mutex. -/
  | unlocked (m : Mutex)
  | refused (m : Mutex)
  /-- Before `pthread_cond_wait` or `pthread_cond_timedwait`, in it, and in it when woken. -/
  | releasing (m : Mutex) (timed : Bool)
  | sleeping (m : Mutex) (timed : Bool)
  | reacquiring (m : Mutex) (timed : Bool)
  /-- With the mutex again, before `CLockTrace::check` and before `CLockTrace::lock`. -/
  | returned (m : Mutex)
  | checked (m : Mutex)
  deriving DecidableEq

/-- The tables, who really has which mutex, and the threads. -/
structure World where
  trace : CLockTrace := {}
  owner : Mutex → Option Tid := fun _ => none
  pc : Tid → Pc := fun _ => .idle

/-- The calls, each with its thread. The place is that of the macro. -/
inductive Step where
  | lockCheck (t : Tid) (m : Mutex)
  | mutexLock (t : Tid)
  | granted (t : Tid)
  | tryCheck (t : Tid) (m : Mutex)
  | mutexTrylock (t : Tid)
  | lockTrace (t : Tid) (mFile : Str) (mLine : ℤ)
  | mutexUnlock (t : Tid) (m : Mutex)
  | unlockTrace (t : Tid)
  | waitTrace (t : Tid) (m : Mutex) (timed : Bool)
  | condWait (t : Tid)
  | wake (t : Tid) (result : ℤ)
  | reacquired (t : Tid) (result : ℤ)
  | waitCheck (t : Tid)

def EPERM : ℤ := 1

/-- The mutexes of type `PTHREAD_MUTEX_ERRORCHECK`. The others have the default type. -/
abbrev Errorcheck := Mutex → Bool

namespace World

def at_ (w : World) (t : Tid) (pc : Pc) : World := { w with pc := Function.update w.pc t pc }

def acquire (w : World) (t : Tid) (m : Mutex) (pc : Pc) : World :=
  { w.at_ t pc with owner := Function.update w.owner m (some t) }

def release (w : World) (t : Tid) (m : Mutex) (pc : Pc) : World :=
  { w.at_ t pc with owner := Function.update w.owner m none }

/-- A timed wait that returns an error is not traced. -/
def waitReturned (m : Mutex) (timed : Bool) (result : ℤ) : Pc :=
  if timed = true ∧ result ≠ 0 then .idle else .returned m

/-- What a thread must not do to a mutex of the default type that it does not have is no step. -/
def step (errorcheck : Errorcheck) (w : World) : Step → Option World
  | .lockCheck t m => if w.pc t = .idle then
      some { w.at_ t (.locking m) with trace := w.trace.check m t } else none
  | .mutexLock t =>
    match w.pc t with
    | .locking m => some (if w.owner m = none then w.acquire t m (.locked m)
        -- EDEADLK
        else if errorcheck m ∧ w.owner m = some t then w.at_ t (.relocked m)
        else w.at_ t (.blocked m))
    | _ => none
  | .granted t =>
    match w.pc t with
    | .blocked m => if w.owner m = none then some (w.acquire t m (.locked m)) else none
    | _ => none
  | .tryCheck t m => if w.pc t = .idle then
      some { w.at_ t (.trying m) with trace := w.trace.check m t } else none
  | .mutexTrylock t =>
    match w.pc t with
    | .trying m => some (if w.owner m = none then w.acquire t m (.locked m) else w.at_ t .idle)
    | _ => none
  | .lockTrace t mFile mLine =>
    match w.pc t with
    | .locked m | .relocked m | .checked m =>
      some { w.at_ t .idle with trace := w.trace.lock m ⟨mFile, t, mLine⟩ }
    | _ => none
  | .mutexUnlock t m =>
    if w.pc t = .idle ∧ (w.owner m = some t ∨ errorcheck m) then
      some (if w.owner m = some t then w.release t m (.unlocked m) else w.at_ t (.refused m))
    else none
  | .unlockTrace t =>
    match w.pc t with
    | .unlocked m | .refused m => some { w.at_ t .idle with trace := w.trace.unlock m t }
    | _ => none
  | .waitTrace t m timed => if w.pc t = .idle ∧ (w.owner m = some t ∨ errorcheck m) then
      some { w.at_ t (.releasing m timed) with trace := w.trace.unlock m t } else none
  | .condWait t =>
    match w.pc t with
    | .releasing m timed => some (if w.owner m = some t then
        w.release t m (.sleeping m timed) else w.at_ t (waitReturned m timed EPERM))
    | _ => none
  | .wake t result =>
    match w.pc t with
    | .sleeping m timed => some (if w.owner m = none then
        w.acquire t m (waitReturned m timed result) else w.at_ t (.reacquiring m timed))
    | _ => none
  | .reacquired t result =>
    match w.pc t with
    | .reacquiring m timed => if w.owner m = none then
        some (w.acquire t m (waitReturned m timed result)) else none
    | _ => none
  | .waitCheck t =>
    match w.pc t with
    | .returned m => some { w.at_ t (.checked m) with trace := w.trace.check m t }
    | _ => none

end World

def lockMacros (errorcheck : Errorcheck) : Machine World Step := ⟨World.step errorcheck⟩

/-! ## What is claimed, and when it holds -/

/-- The call that blocks the thread waits for the mutex. -/
def Pc.waitsFor : Pc → Option Mutex
  | .blocked m | .reacquiring m _ => some m
  | _ => none

/-- No macro is between its calls. -/
def Pc.quiet : Pc → Bool
  | .idle | .blocked _ | .sleeping _ _ | .reacquiring _ _ => true
  | _ => false

/-- The tables are those of the true owners and waiters. -/
structure Mirror (w : World) : Prop where
  owners : ∀ m, w.trace.owner m = w.owner m
  owned : ∀ t m, m ∈ w.trace.owned t ↔ w.owner m = some t
  waits : ∀ t m, w.trace.mWaitLocks t = some m ↔ (w.pc t).waitsFor = some m
  waiters : ∀ m, ∃ ts : Finset Tid, (∀ t, t ∈ ts ↔ (w.pc t).waitsFor = some m) ∧
    w.trace.waiters m = ts.card

/-- The thread has the mutex or is about to get it, and the tracer does not know yet. -/
@[simp] def Pc.pending : Pc → Option Mutex
  | .locking m | .trying m | .locked m | .releasing m _ | .returned m | .checked m => some m
  | _ => none

/-- The step does none of the five. -/
def Sound (w : World) : Step → Prop
  | .mutexTrylock t => ∀ m, w.pc t = .trying m → w.owner m = none
  | .wake t result => ∀ m timed, w.pc t = .sleeping m timed → w.owner m = none →
      timed = true → result = 0
  | .reacquired t result => ∀ m timed, w.pc t = .reacquiring m timed → timed = true → result = 0
  | .unlockTrace t => ∀ m, w.pc t = .unlocked m ∨ w.pc t = .refused m →
      ∀ u, w.owner m = some u → w.trace.owner m ≠ some u
  | .waitTrace t m _ => w.owner m = some t
  | .condWait t => ∀ m timed, w.pc t = .releasing m timed → w.trace.owner m = none ∨
      ∃ u, u ≠ t ∧ (w.pc u).pending = some m
  | _ => True

/-! ## What the steps keep -/

section Inv

/-- The thread has the mutex. -/
@[simp] def Pc.holds : Pc → Option Mutex
  | .locked m | .relocked m | .releasing m _ | .returned m | .checked m => some m
  | _ => none

/-- The thread has the mutex, and the tracer does not know. -/
@[simp] def Pc.untraced : Pc → Option Mutex
  | .locked m | .releasing m _ | .returned m | .checked m => some m
  | _ => none

/-- The thread does not have the mutex. -/
@[simp] def Pc.lacks : Pc → Option Mutex
  | .unlocked m | .refused m => some m
  | _ => none

/-- The thread has the mutex no more, and the tracer does not know. -/
@[simp] def Pc.stale : Pc → Option Mutex
  | .unlocked m => some m
  | _ => none

/-- The tracer knows the thread as one that waits for the mutex. -/
@[simp] def Pc.noted : Pc → Option Mutex
  | .locking m | .trying m | .blocked m | .locked m | .relocked m | .checked m => some m
  | _ => none

structure Inv (w : World) : Prop where
  holds : ∀ t m, (w.pc t).holds = some m → w.owner m = some t
  lacks : ∀ t m, (w.pc t).lacks = some m → w.owner m ≠ some t
  known : ∀ t m, w.owner m = some t → (w.pc t).untraced ≠ some m → w.trace.owner m = some t
  owner : ∀ t m, w.trace.owner m = some t → (w.owner m = some t ∧ (w.pc t).untraced ≠ some m) ∨
    (w.pc t).stale = some m ∨ ∃ u, (w.pc u).pending = some m
  owned : ∀ t m, m ∈ w.trace.owned t ↔
    (w.owner m = some t ∧ (w.pc t).untraced ≠ some m) ∨ (w.pc t).stale = some m
  waits : ∀ t, w.trace.mWaitLocks t = (w.pc t).noted
  waiters : ∀ m, ∃ ts : Finset Tid, (∀ t, t ∈ ts ↔ (w.pc t).noted = some m) ∧
    w.trace.waiters m = ts.card

variable {w w' : World} {t : Tid} {m : Mutex} {pc : Pc}

theorem Pc.pending_of_untraced (h : pc.untraced = some m) : pc.pending = some m := by
  cases pc <;> simp_all

theorem Pc.holds_of_untraced (h : pc.untraced = some m) : pc.holds = some m := by
  cases pc <;> simp_all

theorem Pc.lacks_of_stale (h : pc.stale = some m) : pc.lacks = some m := by
  cases pc <;> simp_all

theorem Inv.untraced (h : Inv w) (t : Tid) (m : Mutex) (ht : (w.pc t).untraced = some m) :
    w.owner m = some t :=
  h.holds t m (Pc.holds_of_untraced ht)

theorem Inv.stale (h : Inv w) (t : Tid) (m : Mutex) (ht : (w.pc t).stale = some m) :
    w.owner m ≠ some t :=
  h.lacks t m (Pc.lacks_of_stale ht)

theorem Inv.start : Inv {} where
  holds _ _ h := by cases h
  lacks _ _ h := by cases h
  known _ _ h := by cases h
  owner _ _ h := by cases h
  owned _ _ := by simp [CLockTrace.owned]
  waits _ := rfl
  waiters _ := ⟨∅, by simp, rfl⟩

/-- The threads that are noted for a mutex stay those when the thread's note is the same. -/
theorem Inv.waiters_at (h : Inv w) (hnoted : pc.noted = (w.pc t).noted) (m : Mutex) :
    ∃ ts : Finset Tid, (∀ u, u ∈ ts ↔ (Function.update w.pc t pc u).noted = some m) ∧
      w.trace.waiters m = ts.card := by
  obtain ⟨ts, hts, hcard⟩ := h.waiters m
  refine ⟨ts, fun u => ?_, hcard⟩
  rw [hts u, Function.update_apply]
  split_ifs with hu
  · rw [hu, hnoted]
  · rfl

theorem Inv.waits_at (h : Inv w) (hnoted : pc.noted = (w.pc t).noted) (u : Tid) :
    w.trace.mWaitLocks u = (Function.update w.pc t pc u).noted := by
  rw [h.waits u, Function.update_apply]
  split_ifs with hu
  · rw [hu, hnoted]
  · rfl

/-- `CLockTrace::check`, before a wait or behind one for a condition. -/
theorem Inv.check (h : Inv w) (hholds : pc.holds = (w.pc t).holds)
    (huntraced : pc.untraced = (w.pc t).untraced) (hlacks : pc.lacks = (w.pc t).lacks)
    (hstale : pc.stale = (w.pc t).stale) (hold : (w.pc t).noted = none) (hnew : pc.noted = some m)
    (hpending : pc.pending = some m)
    (hpending' : ∀ m', (w.pc t).pending = some m' → m' = m) :
    Inv { w.at_ t pc with trace := w.trace.check m t } where
  holds u m' hu := by
    have := h.holds u m'
    simp only [World.at_, Function.update_apply] at hu ⊢
    grind
  lacks u m' hu := by
    have := h.lacks u m'
    simp only [World.at_, Function.update_apply] at hu ⊢
    grind
  known u m' hu hne := by
    have := h.known u m'
    simp only [World.at_, Function.update_apply] at hu hne ⊢
    grind [check_owner_of_some]
  owner u m' hu := by
    simp only [World.at_, Function.update_apply]
    by_cases hm : m' = m
    · exact .inr (.inr ⟨t, by rw [if_pos rfl, hm, hpending]⟩)
    · have := h.owner u m' (owner_of_check_owner hu hm)
      grind
  owned u m' := by
    have := h.owned u m'
    simp only [World.at_, Function.update_apply, check_owned]
    grind
  waits u := by
    have := h.waits u
    simp only [World.at_, Function.update_apply, check_mWaitLocks]
    grind
  waiters m' := by
    obtain ⟨ts, hts, hcard⟩ := h.waiters m'
    simp only [World.at_, Function.update_apply, check_waiters, hcard]
    by_cases hm : m' = m
    · have ht : t ∉ ts := by rw [hts t, hold]; simp
      refine ⟨insert t ts, fun u => ?_, by simp [ht, hm]⟩
      have := hts u
      grind
    · refine ⟨ts, fun u => ?_, by simp [hm]⟩
      have := hts u
      grind

/-- `CLockTrace::lock`, with the mutex. -/
theorem Inv.lock (h : Inv w) (hholds : (w.pc t).holds = some m)
    (hnoted : (w.pc t).noted = some m) (hstale : (w.pc t).stale = none)
    (hpending : ∀ m', (w.pc t).pending = some m' → m' = m) (mFile : Str) (mLine : ℤ) :
    Inv { w.at_ t .idle with trace := w.trace.lock m ⟨mFile, t, mLine⟩ } where
  holds u m' hu := by
    have := h.holds u m'
    simp only [World.at_, Function.update_apply] at hu ⊢
    grind [Pc.holds]
  lacks u m' hu := by
    have := h.lacks u m'
    simp only [World.at_, Function.update_apply] at hu ⊢
    grind [Pc.lacks]
  known u m' hu hne := by
    have := h.known u m'
    have := h.holds t m hholds
    have := fun h => hpending m' (Pc.pending_of_untraced h)
    simp only [World.at_, Function.update_apply, lock_owner] at hu hne ⊢
    grind
  owner u m' hu := by
    have hold := h.owner u m'
    have := h.holds t m hholds
    simp only [World.at_, Function.update_apply, lock_owner] at hu ⊢
    by_cases hm : m' = m
    · grind [Pc.untraced]
    · rcases hold (by simpa [hm] using hu) with hknown | hst | ⟨v, hv⟩
      · grind [Pc.untraced]
      · grind
      · exact .inr (.inr ⟨v, by grind⟩)
  owned u m' := by
    have := h.owned u m'
    have := h.holds t m hholds
    have := fun h => hpending m' (Pc.pending_of_untraced h)
    simp only [World.at_, Function.update_apply, lock_owned]
    grind [Pc.untraced, Pc.stale]
  waits u := by
    have := h.waits u
    simp only [World.at_, Function.update_apply, lock_mWaitLocks]
    grind [Pc.noted]
  waiters m' := by
    have hpos : w.trace.waiters m ≠ 0 := by
      obtain ⟨ts, hts, hcard⟩ := h.waiters m
      rw [hcard]
      exact_mod_cast (Finset.card_pos.2 ⟨t, (hts t).2 hnoted⟩).ne'
    obtain ⟨ts, hts, hcard⟩ := h.waiters m'
    simp only [World.at_, Function.update_apply, lock_waiters hpos, hcard]
    by_cases hm : m' = m
    · have ht : t ∈ ts := by rw [hts t, hnoted, hm]
      refine ⟨ts.erase t, fun u => ?_, ?_⟩
      · have := hts u
        grind [Pc.noted]
      · have := Finset.card_erase_add_one ht
        rw [if_pos hm]
        omega
    · refine ⟨ts, fun u => ?_, by simp [hm]⟩
      have := hts u
      grind [Pc.noted]

/-- A thread gets the mutex that no other has. -/
theorem Inv.acquire (h : Inv w) (hfree : w.owner m = none) (hold : (w.pc t).untraced = none)
    (hnew : pc.untraced = some m) (hholds : pc.holds = some m) (hlacks : pc.lacks = none)
    (hstale : (w.pc t).stale = none) (hstale' : pc.stale = none)
    (hnoted : pc.noted = (w.pc t).noted) (hpending : pc.pending = some m)
    (hpending' : ∀ m', (w.pc t).pending = some m' → m' = m) : Inv (w.acquire t m pc) where
  holds u m' hu := by
    have := h.holds u m'
    simp only [World.acquire, World.at_, Function.update_apply] at hu ⊢
    grind
  lacks u m' hu := by
    have := h.lacks u m'
    simp only [World.acquire, World.at_, Function.update_apply] at hu ⊢
    grind
  known u m' hu hne := by
    have := h.known u m'
    simp only [World.acquire, World.at_, Function.update_apply] at hu hne ⊢
    grind
  owner u m' hu := by
    have := h.owner u m' hu
    simp only [World.acquire, World.at_, Function.update_apply]
    by_cases hm : m' = m
    · exact .inr (.inr ⟨t, by rw [if_pos rfl, hm, hpending]⟩)
    · grind
  owned u m' := by
    have := h.owned u m'
    simp only [World.acquire, World.at_, Function.update_apply]
    grind
  waits := h.waits_at hnoted
  waiters := h.waiters_at hnoted

/-- The mutex is given up. A thread that goes to sleep leaves no owner in the tables, or another
that is about to be one. -/
theorem Inv.release (h : Inv w) (howner : w.owner m = some t) (hholds : pc.holds = none)
    (hlacks : pc.lacks = none ∨ pc.lacks = some m) (hpc : pc.untraced = none)
    (hnoted : pc.noted = (w.pc t).noted) (hstale : (w.pc t).stale = none)
    (hidle : (w.pc t).untraced = none ∧ pc.stale = some m ∧ (w.pc t).pending = none ∨
      (w.pc t).untraced = some m ∧ pc.stale = none ∧ (w.trace.owner m = none ∨
        ∃ u, u ≠ t ∧ (w.pc u).pending = some m)) : Inv (w.release t m pc) where
  holds u m' hu := by
    have := h.holds u m'
    simp only [World.release, World.at_, Function.update_apply] at hu ⊢
    grind
  lacks u m' hu := by
    have := h.lacks u m'
    simp only [World.release, World.at_, Function.update_apply] at hu ⊢
    grind
  known u m' hu hne := by
    have := h.known u m'
    simp only [World.release, World.at_, Function.update_apply] at hu hne ⊢
    grind
  owner u m' hu := by
    have hu : w.trace.owner m' = some u := hu
    have hpending := @Pc.pending_of_untraced m (w.pc t)
    simp only [World.release, World.at_, Function.update_apply]
    by_cases hlast : m' = m ∧ (w.pc t).untraced = some m
    · obtain ⟨v, hv⟩ : ∃ v, v ≠ t ∧ (w.pc v).pending = some m := by grind
      exact .inr (.inr ⟨v, by grind⟩)
    · rcases h.owner u m' hu with hknown | hst | ⟨v, hv⟩
      · grind
      · grind
      · exact .inr (.inr ⟨v, by grind⟩)
  owned u m' := by
    have := h.owned u m'
    simp only [World.release, World.at_, Function.update_apply]
    grind
  waits := h.waits_at hnoted
  waiters := h.waiters_at hnoted

/-- An owner that `CLockTrace::unlock` leaves stays one for the same reason. -/
theorem Inv.owner_unlock (h : Inv w) (huntraced : ∀ m', pc.untraced = some m' → m' = m)
    (hstale : ∀ m', (w.pc t).stale = some m' → m' = m) (hpending : (w.pc t).pending = none)
    {u : Tid} {m' : Mutex} (hu : (w.trace.unlock m t).owner m' = some u) :
    (w.owner m' = some u ∧ (Function.update w.pc t pc u).untraced ≠ some m') ∨
      (Function.update w.pc t pc u).stale = some m' ∨
      ∃ v, (Function.update w.pc t pc v).pending = some m' := by
  simp only [Function.update_apply, unlock_owner] at hu ⊢
  obtain ⟨hm, hu⟩ : m' ≠ m ∧ w.trace.owner m' = some u := by grind
  rcases h.owner u m' hu with hknown | hst | ⟨v, hv⟩
  · grind
  · grind
  · exact .inr (.inr ⟨v, by grind⟩)

/-- `CLockTrace::unlock` behind the unlock, when it does not clear the owner. -/
theorem Inv.unlock (h : Inv w) (hpc : w.pc t = .unlocked m ∨ w.pc t = .refused m)
    (hnext : ∀ u, w.owner m = some u → w.trace.owner m ≠ some u) :
    Inv { w.at_ t .idle with trace := w.trace.unlock m t } where
  holds u m' hu := by
    have := h.holds u m'
    simp only [World.at_, Function.update_apply] at hu ⊢
    grind [Pc.holds]
  lacks u m' hu := by
    have := h.lacks u m'
    simp only [World.at_, Function.update_apply] at hu ⊢
    grind [Pc.lacks]
  known u m' hu hne := by
    have := h.known u m'
    have := h.lacks t m
    simp only [World.at_, Function.update_apply, unlock_owner] at hu hne ⊢
    rcases hpc with hpc | hpc <;> grind [Pc.untraced, Pc.lacks]
  owner u m' hu := by
    rcases hpc with hpc | hpc <;> exact h.owner_unlock (by simp) (by simp [hpc]) (by simp [hpc]) hu
  owned u m' := by
    have := h.owned u m'
    have := h.lacks t m
    simp only [World.at_, Function.update_apply, unlock_owned]
    rcases hpc with hpc | hpc <;> grind [Pc.untraced, Pc.stale, Pc.lacks]
  waits := h.waits_at (by rcases hpc with hpc | hpc <;> rw [hpc] <;> rfl)
  waiters := h.waiters_at (by rcases hpc with hpc | hpc <;> rw [hpc] <;> rfl)

/-- `CLockTrace::unlock` before a wait for a condition. -/
theorem Inv.wait (h : Inv w) (hpc : w.pc t = .idle) (howner : w.owner m = some t) (timed : Bool) :
    Inv { w.at_ t (.releasing m timed) with trace := w.trace.unlock m t } where
  holds u m' hu := by
    have := h.holds u m'
    simp only [World.at_, Function.update_apply] at hu ⊢
    grind [Pc.holds]
  lacks u m' hu := by
    have := h.lacks u m'
    simp only [World.at_, Function.update_apply] at hu ⊢
    grind [Pc.lacks]
  known u m' hu hne := by
    have := h.known u m'
    simp only [World.at_, Function.update_apply, unlock_owner] at hu hne ⊢
    grind [Pc.untraced]
  owner u m' hu := h.owner_unlock (by simp) (by simp [hpc]) (by simp [hpc]) hu
  owned u m' := by
    have := h.owned u m'
    simp only [World.at_, Function.update_apply, unlock_owned]
    grind [Pc.untraced, Pc.stale]
  waits := h.waits_at (by rw [hpc]; rfl)
  waiters := h.waiters_at (by rw [hpc]; rfl)

/-- The thread goes on, or has to wait for the owner. -/
theorem Inv.move (h : Inv w) (hholds : ∀ m, pc.holds = some m → w.owner m = some t)
    (hlacks : ∀ m, pc.lacks = some m → w.owner m ≠ some t)
    (huntraced : pc.untraced = (w.pc t).untraced) (hstale : pc.stale = (w.pc t).stale)
    (hnoted : pc.noted = (w.pc t).noted)
    (howner : ∀ m, (w.pc t).pending = some m → w.owner m ≠ none) : Inv (w.at_ t pc) where
  holds u m hu := by
    have := h.holds u m
    simp only [World.at_, Function.update_apply] at hu ⊢
    grind
  lacks u m hu := by
    have := h.lacks u m
    simp only [World.at_, Function.update_apply] at hu ⊢
    grind
  known u m hu hne := by
    have := h.known u m
    simp only [World.at_, Function.update_apply] at hu hne ⊢
    grind
  owner u m hu := by
    have hu : w.trace.owner m = some u := hu
    simp only [World.at_, Function.update_apply]
    rcases h.owner u m hu with hknown | hst | ⟨v, hv⟩
    · grind
    · grind
    by_cases hv' : v = t
    · -- the owner that the thread waits for is known, or is about to be
      obtain ⟨o, ho⟩ := Option.ne_none_iff_exists'.1 (howner m (hv' ▸ hv))
      by_cases hold : (w.pc o).untraced = some m
      · exact .inr (.inr ⟨o, by grind [Pc.pending_of_untraced]⟩)
      · have := h.known o m ho hold
        grind
    · exact .inr (.inr ⟨v, by grind⟩)
  owned u m := by
    have := h.owned u m
    simp only [World.at_, Function.update_apply]
    grind
  waits := h.waits_at hnoted
  waiters := h.waiters_at hnoted

/-- A woken thread gets the mutex back, and `CLockTrace::check` is next. -/
theorem Inv.return (h : Inv w) (hfree : w.owner m = none) {timed : Bool}
    (hpc : w.pc t = .sleeping m timed ∨ w.pc t = .reacquiring m timed) :
    Inv (w.acquire t m (.returned m)) := by
  rcases hpc with hpc | hpc <;> apply h.acquire hfree <;> simp [hpc]

/-- What every sound step keeps. -/
theorem Inv.step {errorcheck : Errorcheck} {l : Step} (h : Inv w) (hsound : Sound w l)
    (hs : w.step errorcheck l = some w') : Inv w' := by
  cases l with
  | lockCheck t m | tryCheck t m =>
    obtain ⟨hpc, hs⟩ := Option.ite_none_right_eq_some.1 hs
    obtain rfl := Option.some.inj hs
    apply h.check <;> simp [hpc]
  | mutexLock t =>
    simp only [World.step] at hs
    split at hs
    · next m hpc =>
      obtain rfl := Option.some.inj hs
      split_ifs with hfree hagain
      · apply h.acquire hfree <;> simp [hpc]
      · apply h.move <;> simp [hpc, hagain.2]
      · apply h.move <;> simp [hpc, hfree]
    · cases hs
  | granted t =>
    simp only [World.step] at hs
    split at hs
    · next m hpc =>
      obtain ⟨hfree, hs⟩ := Option.ite_none_right_eq_some.1 hs
      obtain rfl := Option.some.inj hs
      apply h.acquire hfree <;> simp [hpc]
    · cases hs
  | mutexTrylock t =>
    simp only [World.step] at hs
    split at hs
    · next m hpc =>
      obtain rfl := Option.some.inj hs
      have hfree := hsound m hpc
      rw [if_pos hfree]
      apply h.acquire hfree <;> simp [hpc]
    · cases hs
  | lockTrace t mFile mLine =>
    simp only [World.step] at hs
    split at hs
    · next m hpc =>
      obtain rfl := Option.some.inj hs
      apply h.lock <;> simp [hpc]
    · next m hpc =>
      obtain rfl := Option.some.inj hs
      apply h.lock <;> simp [hpc]
    · next m hpc =>
      obtain rfl := Option.some.inj hs
      apply h.lock <;> simp [hpc]
    · cases hs
  | mutexUnlock t m =>
    obtain ⟨⟨hpc, -⟩, hs⟩ := Option.ite_none_right_eq_some.1 hs
    obtain rfl := Option.some.inj hs
    split_ifs with howner
    · apply h.release howner <;> simp [hpc]
    · apply h.move <;> simp [hpc, howner]
  | unlockTrace t =>
    simp only [World.step] at hs
    split at hs
    · next m hpc =>
      obtain rfl := Option.some.inj hs
      exact h.unlock (.inl hpc) (hsound m (.inl hpc))
    · next m hpc =>
      obtain rfl := Option.some.inj hs
      exact h.unlock (.inr hpc) (hsound m (.inr hpc))
    · cases hs
  | waitTrace t m timed =>
    obtain ⟨⟨hpc, -⟩, hs⟩ := Option.ite_none_right_eq_some.1 hs
    obtain rfl := Option.some.inj hs
    exact h.wait hpc hsound timed
  | condWait t =>
    simp only [World.step] at hs
    split at hs
    · next m timed hpc =>
      obtain rfl := Option.some.inj hs
      have howner : w.owner m = some t := h.holds t m (by simp [hpc])
      rw [if_pos howner]
      apply h.release howner
      case hidle => exact .inr ⟨by simp [hpc], rfl, hsound m timed hpc⟩
      all_goals simp [hpc]
    · cases hs
  | wake t result =>
    simp only [World.step] at hs
    split at hs
    · next m timed hpc =>
      obtain rfl := Option.some.inj hs
      split_ifs with hfree
      · have hresult := hsound m timed hpc hfree
        rw [World.waitReturned, if_neg fun hbad => hbad.2 (hresult hbad.1)]
        exact h.return hfree (.inl hpc)
      · apply h.move <;> simp [hpc]
    · cases hs
  | reacquired t result =>
    simp only [World.step] at hs
    split at hs
    · next m timed hpc =>
      obtain ⟨hfree, hs⟩ := Option.ite_none_right_eq_some.1 hs
      obtain rfl := Option.some.inj hs
      have hresult := hsound m timed hpc
      rw [World.waitReturned, if_neg fun hbad => hbad.2 (hresult hbad.1)]
      exact h.return hfree (.inr hpc)
    · cases hs
  | waitCheck t =>
    simp only [World.step] at hs
    split at hs
    · next m hpc =>
      obtain rfl := Option.some.inj hs
      apply h.check <;> simp [hpc]
    · cases hs

/-- Between the macros the tables are right, but for the threads that wait to get a mutex back. -/
theorem Inv.mirror_iff (h : Inv w) (hquiet : ∀ t, (w.pc t).quiet = true) :
    Mirror w ↔ ∀ t m timed, w.pc t ≠ .reacquiring m timed := by
  have hstale : ∀ t m, (w.pc t).stale ≠ some m := fun t m => by
    have := hquiet t
    cases hpc : w.pc t <;> simp_all [Pc.quiet]
  have hpending : ∀ t m, (w.pc t).pending ≠ some m := fun t m => by
    have := hquiet t
    cases hpc : w.pc t <;> simp_all [Pc.quiet]
  have huntraced : ∀ t m, (w.pc t).untraced ≠ some m := fun t m ht =>
    hpending t m (Pc.pending_of_untraced ht)
  constructor
  · intro hmirror t m timed hpc
    have hwait := (hmirror.waits t m).2 (by rw [hpc]; rfl)
    rw [h.waits t, hpc] at hwait
    cases hwait
  · intro hback
    have hnoted : ∀ t, (w.pc t).noted = (w.pc t).waitsFor := fun t => by
      have := hquiet t
      have := hback t
      cases hpc : w.pc t <;> simp_all [Pc.quiet, Pc.waitsFor]
    have howner : ∀ t m, w.trace.owner m = some t ↔ w.owner m = some t := by
      refine fun t m => ⟨fun ht => ?_, fun ht => h.known t m ht (huntraced t m)⟩
      rcases h.owner t m ht with hknown | hst | ⟨u, hu⟩
      · exact hknown.1
      · exact absurd hst (hstale t m)
      · exact absurd hu (hpending u m)
    refine ⟨fun m => Option.ext fun t => howner t m, fun t m => ?_, fun t m => ?_, fun m => ?_⟩
    · rw [h.owned t m, or_iff_left (hstale t m), and_iff_left (huntraced t m)]
    · rw [h.waits t, hnoted t]
    · obtain ⟨ts, hts, hcard⟩ := h.waiters m
      exact ⟨ts, fun t => by rw [hts t, hnoted t], hcard⟩

/-- The check for deadlocks then reads the tables that it takes for granted. -/
theorem Mirror.accurate (h : Mirror w) : w.trace.Accurate := fun m t => by
  rw [h.owners m, h.owned t m]

end Inv

/-- In a run that does none of the five, in every state between the macros. -/
theorem tables_mirror (errorcheck : Errorcheck) {steps : List Step}
    (hsound : (lockMacros errorcheck).Meets Sound {} steps) :
    (lockMacros errorcheck).Throughout (fun w => (∀ t, (w.pc t).quiet = true) →
      (Mirror w ↔ ∀ t m timed, w.pc t ≠ .reacquiring m timed)) {} steps :=
  (lockMacros errorcheck).throughout_of_meets (fun _ h => h.mirror_iff)
    (fun _ _ _ h hc hs => h.step hc hs) steps Inv.start hsound

/-- Thread 2 unlocks a mutex that it does not have. Thread 1 locks another one twice and waits for a
condition, and thread 2 has that mutex meanwhile. -/
def waitSteps : List Step :=
  [.mutexUnlock 2 20, .unlockTrace 2, .lockCheck 1 10, .mutexLock 1, .lockTrace 1 [] 0,
    .lockCheck 1 10, .mutexLock 1, .lockTrace 1 [] 0, .waitTrace 1 10 true, .condWait 1,
    .tryCheck 2 10, .mutexTrylock 2, .wake 1 0]

theorem tables_mirror_wait : (lockMacros fun _ => true).Throughout (fun w =>
    (∀ t, (w.pc t).quiet = true) →
      (Mirror w ↔ ∀ t m timed, w.pc t ≠ .reacquiring m timed)) {} waitSteps := by
  apply tables_mirror
  refine .cons _ rfl trivial <| .cons _ rfl (fun m hpc u howner => ?_) <| .cons _ rfl trivial <|
    .cons _ rfl trivial <| .cons _ rfl trivial <| .cons _ rfl trivial <| .cons _ rfl trivial <|
    .cons _ rfl trivial <| .cons _ rfl rfl <| .cons _ rfl (fun m timed hpc => ?_) <|
    .cons _ rfl trivial <| .cons _ rfl (fun m hpc => ?_) <|
    .cons _ rfl (fun _ _ _ _ _ => rfl) trivial
  · obtain rfl : 20 = m := by
      rcases hpc with hpc | hpc
      · exact absurd (show Pc.refused 20 = Pc.unlocked m from hpc) (by simp)
      · exact Pc.refused.inj hpc
    exact absurd (show (none : Option Tid) = some u from howner) (by simp)
  · obtain ⟨rfl, -⟩ : 10 = m ∧ true = timed := Pc.releasing.inj hpc
    exact .inl rfl
  · obtain rfl : 10 = m := Pc.trying.inj hpc
    rfl

/-- The mutex is taken, and the trace of the `trylock` that failed stays. -/
theorem tables_mirror_trylock : ¬ ∀ errorcheck steps w,
    (lockMacros errorcheck).run {} steps = some w → (∀ t, (w.pc t).quiet = true) → Mirror w := by
  intro h
  have hmirror := h (fun _ => true) [.lockCheck 1 10, .mutexLock 1, .lockTrace 1 [] 0,
    .tryCheck 2 10, .mutexTrylock 2] _ rfl fun t => ?_
  · cases (hmirror.waits 2 10).1 rfl
  · by_cases h1 : t = 1
    · rw [h1]
      rfl
    by_cases h2 : t = 2
    · rw [h2]
      rfl
    simp [World.at_, World.acquire, Pc.quiet]

/-- Thread 2 unlocks the mutex of thread 1, which refuses it, and the tables have no owner. -/
example : (((lockMacros fun _ => true).run {} [.lockCheck 1 10, .mutexLock 1, .lockTrace 1 [] 0,
    .mutexUnlock 2 10, .unlockTrace 2]).map fun w => (w.owner 10, w.trace.owner 10)) =
      some (some 1, none) := rfl

end LockMirror

end Longda
