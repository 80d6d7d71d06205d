import Mathlib.Data.Prod.Lex
import Mathlib.Data.UInt
import Mathlib.Order.Basic
import Longda.Lib.Machine
import Longda.Lib.OrderedMap

/-!
# The timer stage

The stage keeps the timers in the order of their deadlines, those with one deadline in the order of
the nonces of their tokens. Its handler threads enter and cancel timers, and a thread of its own
fires those that are due and sleeps until the first deadline. `timer` takes one critical section of
the timer's mutex at a time, so that between two steps the lock is free.
-/

namespace Longda

open Lib

structure Timeval where
  tvSec : ℤ
  tvUsec : ℤ

structure Timespec where
  tvSec : ℤ
  tvNsec : ℤ

def NSEC_PER_USEC : ℤ := 1000

namespace Timeval

/-- `TIMEVAL_EQUAL`. -/
def equal (t1 t2 : Timeval) : Bool :=
  decide (t1.tvSec = t2.tvSec) && decide (t1.tvUsec = t2.tvUsec)

/-- `TIMEVAL_LESS_THAN`. -/
def lessThan (t1 t2 : Timeval) : Bool :=
  decide (t1.tvSec < t2.tvSec)
    || (decide (t1.tvSec = t2.tvSec) && decide (t1.tvUsec < t2.tvUsec))

def key (t : Timeval) : ℤ ×ₗ ℤ := toLex (t.tvSec, t.tvUsec)

theorem key_injective : Function.Injective key := by
  intro a b h
  have h := toLex.injective h
  simp only [Prod.mk.injEq] at h
  cases a
  cases b
  simp_all

instance : LinearOrder Timeval := LinearOrder.lift' key key_injective

/-- The time a wait for a deadline ends at. -/
def toTimespec (t : Timeval) : Timespec := ⟨t.tvSec, t.tvUsec * NSEC_PER_USEC⟩

theorem lt_iff {t1 t2 : Timeval} : t1 < t2 ↔
    t1.tvSec < t2.tvSec ∨ t1.tvSec = t2.tvSec ∧ t1.tvUsec < t2.tvUsec :=
  Prod.Lex.toLex_lt_toLex

@[simp] theorem lessThan_iff {t1 t2 : Timeval} : t1.lessThan t2 ↔ t1 < t2 := by
  simp [lessThan, lt_iff]

@[simp] theorem equal_iff {t1 t2 : Timeval} : t1.equal t2 ↔ t1 = t2 := by
  cases t1
  cases t2
  simp [equal]

end Timeval

namespace Timespec

/-- The clock as `checkTimer` reads it, in whole microseconds. -/
def toTimeval (ts : Timespec) : Timeval := ⟨ts.tvSec, ts.tvNsec / NSEC_PER_USEC⟩

def key (t : Timespec) : ℤ ×ₗ ℤ := toLex (t.tvSec, t.tvNsec)

theorem key_injective : Function.Injective key := by
  intro a b h
  have h := toLex.injective h
  simp only [Prod.mk.injEq] at h
  cases a
  cases b
  simp_all

instance : LinearOrder Timespec := LinearOrder.lift' key key_injective

theorem le_iff {t1 t2 : Timespec} : t1 ≤ t2 ↔
    t1.tvSec < t2.tvSec ∨ t1.tvSec = t2.tvSec ∧ t1.tvNsec ≤ t2.tvNsec :=
  Prod.Lex.toLex_le_toLex

end Timespec

theorem Timeval.toTimespec_mono {t1 t2 : Timeval} (h : t1 ≤ t2) :
    t1.toTimespec ≤ t2.toTimespec := by
  have hle : t1.tvSec < t2.tvSec ∨ t1.tvSec = t2.tvSec ∧ t1.tvUsec ≤ t2.tvUsec :=
    Prod.Lex.toLex_le_toLex.1 h
  rw [Timespec.le_iff]
  simp only [Timeval.toTimespec, NSEC_PER_USEC]
  omega

structure TimerToken where
  time : Timeval
  nonce : UInt64

namespace TimerToken

/-- `operator<`. -/
def lessThan (tt other : TimerToken) : Bool :=
  if tt.time.lessThan other.time then true
  else if tt.time.equal other.time then decide (tt.nonce < other.nonce)
  else false

def key (tt : TimerToken) : Timeval ×ₗ ℕ := toLex (tt.time, tt.nonce.toNat)

theorem key_injective : Function.Injective key := by
  intro a b h
  have h := toLex.injective h
  simp only [Prod.mk.injEq, UInt64.toNat_inj] at h
  cases a
  cases b
  simp_all

instance : LinearOrder TimerToken := LinearOrder.lift' key key_injective

theorem lt_iff {tt other : TimerToken} : tt < other ↔
    tt.time < other.time ∨ tt.time = other.time ∧ tt.nonce < other.nonce := by
  rw [UInt64.lt_iff_toNat_lt]
  exact Prod.Lex.toLex_lt_toLex

/-- The map is ordered as `operator<` has it. -/
theorem lessThan_iff {tt other : TimerToken} : tt.lessThan other ↔ tt < other := by
  unfold lessThan
  rw [lt_iff]
  split_ifs with hlt heq
  · simp [Timeval.lessThan_iff.1 hlt]
  · rw [Timeval.lessThan_iff] at hlt
    rw [Timeval.equal_iff] at heq
    simp [heq]
  · rw [Timeval.lessThan_iff] at hlt
    rw [Timeval.equal_iff] at heq
    simp [hlt, heq]

theorem time_le_of_le {tt other : TimerToken} (h : tt ≤ other) : tt.time ≤ other.time := by
  rcases h.lt_or_eq with h | rfl
  · rcases lt_iff.1 h with h | h
    · exact h.le
    · exact h.1.le
  · exact le_rfl

end TimerToken

/-- What the mutex of the stage guards, with the callback event of each timer. -/
structure TimerStage (ε : Type*) where
  timerQueue : OrderedMap TimerToken ε := .empty
  shutdown : Bool := false
  numEvents : UInt32 := 0

namespace TimerStage

variable {ε : Type*}

/-- The critical section of `registerTimer`, unless its assertion fails, and whether the timer has
become the first one. -/
def registerTimer (s : TimerStage ε) (tt : TimerToken) (timerCb : ε) :
    Option (TimerStage ε × Bool) :=
  if (s.timerQueue.find? tt).isSome then none
  else
    let timerQueue := s.timerQueue.insert tt timerCb
    some ({ s with timerQueue := timerQueue, numEvents := s.numEvents + 1 },
      timerQueue.head?.any (·.1 = tt))

/-- `cancelTimer`, and whether it reports success. -/
def cancelTimer (s : TimerStage ε) (tt : TimerToken) : TimerStage ε × Bool :=
  if (s.timerQueue.find? tt).isSome then
    ({ s with timerQueue := s.timerQueue.erase tt, numEvents := s.numEvents - 1 }, true)
  else (s, false)

/-- The timers before the first one whose time has not come. -/
def doneEvents (s : TimerStage ε) (now : Timeval) : List (TimerToken × ε) :=
  s.timerQueue.entries.takeWhile fun e => !now.lessThan e.1.time

/-- A round of `checkTimer` as far as the check for the shutdown. -/
def checkTimer (s : TimerStage ε) (now : Timeval) : TimerStage ε :=
  { s with
    timerQueue := s.timerQueue.dropWhile fun e => !now.lessThan e.1.time
    numEvents := (s.doneEvents now).foldl (fun n _ => n - 1) s.numEvents }

/-- When the wait of `checkTimer` is to end, if no signal ends it. -/
def sleepUntil (s : TimerStage ε) : Option Timespec :=
  s.timerQueue.head?.map fun e => e.1.time.toTimespec

end TimerStage

/-- What the users of the timer see of it. -/
inductive Happening (ε : Type*) where
  | registered (tt : TimerToken) (timerCb : ε)
  | cancelled (tt : TimerToken) (success : Bool)
  | fired (tt : TimerToken) (timerCb : ε) (now : Timeval)

/-- Where a handler thread of the stage is. -/
inductive Handler (ε : Type*) where
  | idle
  /-- In `registerTimer`, with a token and not yet with the lock. -/
  | registering (tt : TimerToken) (timerCb : ε)
  /-- In `registerTimer` after the unlock, with `check_timer` set. -/
  | signalling

/-- Where the timer thread is. -/
inductive TimerThread where
  | absent
  /-- It takes the lock next and goes through a round of `checkTimer`. -/
  | running
  | blocked (wakeTime : Option Timespec)
  /-- Its wait has a signal and is not over yet. -/
  | signalled
  | terminated

def TimerThread.signal : TimerThread → TimerThread
  | .blocked _ => .signalled
  | t => t

structure TimerWorld (ε : Type*) where
  clock : Timespec
  nonceCntr : UInt64 := 0
  /-- How many nonces have been drawn. -/
  drawn : ℕ := 0
  stage : TimerStage ε := {}
  handler : ℕ → Handler ε := fun _ => .idle
  thread : TimerThread := .absent
  aborted : Bool := false
  /-- What has happened, the latest first. -/
  log : List (Happening ε) := []

inductive TimerStep (ε : Type*) where
  | tick (ts : Timespec)
  /-- A token is made elsewhere. -/
  | nextNonce
  /-- A handler enters `registerTimer` and makes the token. -/
  | newToken (h : ℕ) (time : Timeval) (timerCb : ε)
  | registerTimer (h : ℕ)
  | triggerTimerCheck (h : ℕ)
  | cancelTimer (tt : TimerToken)
  /-- `initialize` makes the timer thread. -/
  | startTimerThread
  | checkTimer
  /-- The wait of the timer thread is over, by a signal, at its time, or for no reason. -/
  | wake
  | disconnectPrepare

namespace TimerWorld

variable {ε : Type*}

def nextNonce (w : TimerWorld ε) : TimerWorld ε :=
  { w with nonceCntr := w.nonceCntr + 1, drawn := w.drawn + 1 }

def setHandler (w : TimerWorld ε) (h : ℕ) (pc : Handler ε) : TimerWorld ε :=
  { w with handler := Function.update w.handler h pc }

/-- The critical section of `registerTimer` for the thread `h`. -/
def register (w : TimerWorld ε) (h : ℕ) (tt : TimerToken) (timerCb : ε) : TimerWorld ε :=
  match w.stage.registerTimer tt timerCb with
  | none => { w with aborted := true }
  | some (stage, checkTimer) =>
    { w with stage := stage, log := .registered tt timerCb :: w.log }.setHandler h
      (if checkTimer then .signalling else .idle)

def now (w : TimerWorld ε) : Timeval := w.clock.toTimeval

/-- The timers a round of `checkTimer` fires, the latest first. -/
def firing (w : TimerWorld ε) : List (Happening ε) :=
  ((w.stage.doneEvents w.now).map fun e => .fired e.1 e.2 w.now).reverse

/-- A round of `checkTimer`, as far as the wait at its end. -/
def check (w : TimerWorld ε) : TimerWorld ε :=
  let stage := w.stage.checkTimer w.now
  { w with
    stage := stage
    thread := if stage.shutdown then .terminated else .blocked stage.sleepUntil
    log := w.firing ++ w.log }

def step (w : TimerWorld ε) (l : TimerStep ε) : Option (TimerWorld ε) :=
  if w.aborted then none
  else match l with
  | .tick ts => if w.clock ≤ ts then some { w with clock := ts } else none
  | .nextNonce => some w.nextNonce
  | .newToken h time timerCb => match w.handler h with
    | .idle => some (w.nextNonce.setHandler h (.registering ⟨time, w.nonceCntr⟩ timerCb))
    | _ => none
  | .registerTimer h => match w.handler h with
    | .registering tt timerCb => some (w.register h tt timerCb)
    | _ => none
  | .triggerTimerCheck h => match w.handler h with
    | .signalling => some ({ w with thread := w.thread.signal }.setHandler h .idle)
    | _ => none
  | .cancelTimer tt =>
    some { w with
      stage := (w.stage.cancelTimer tt).1
      log := .cancelled tt (w.stage.cancelTimer tt).2 :: w.log }
  | .startTimerThread => match w.thread with
    | .absent | .terminated => some { w with thread := .running }
    | _ => none
  | .checkTimer => match w.thread with
    | .running => some w.check
    | _ => none
  | .wake => match w.thread with
    | .blocked _ | .signalled => some { w with thread := .running }
    | _ => none
  | .disconnectPrepare =>
    some { w with stage := { w.stage with shutdown := true }, thread := w.thread.signal }

/-- What a step finds and what it makes of it. -/
def Takes (w : TimerWorld ε) : TimerStep ε → TimerWorld ε → Prop
  | .tick ts, u => w.clock ≤ ts ∧ u = { w with clock := ts }
  | .nextNonce, u => u = w.nextNonce
  | .newToken h time timerCb, u => w.handler h = .idle
      ∧ u = w.nextNonce.setHandler h (.registering ⟨time, w.nonceCntr⟩ timerCb)
  | .registerTimer h, u =>
      ∃ tt timerCb, w.handler h = .registering tt timerCb ∧ u = w.register h tt timerCb
  | .triggerTimerCheck h, u => w.handler h = .signalling
      ∧ u = { w with thread := w.thread.signal }.setHandler h .idle
  | .cancelTimer tt, u => u = { w with
      stage := (w.stage.cancelTimer tt).1
      log := .cancelled tt (w.stage.cancelTimer tt).2 :: w.log }
  | .startTimerThread, u => (w.thread = .absent ∨ w.thread = .terminated)
      ∧ u = { w with thread := .running }
  | .checkTimer, u => w.thread = .running ∧ u = w.check
  | .wake, u => ((∃ wakeTime, w.thread = .blocked wakeTime) ∨ w.thread = .signalled)
      ∧ u = { w with thread := .running }
  | .disconnectPrepare, u =>
      u = { w with stage := { w.stage with shutdown := true }, thread := w.thread.signal }

theorem step_eq_some {w u : TimerWorld ε} {l : TimerStep ε} :
    w.step l = some u ↔ w.aborted = false ∧ w.Takes l u := by
  unfold step
  by_cases ha : w.aborted = true
  · simp [ha]
  · rw [if_neg ha, and_iff_right (by simpa using ha)]
    cases l with
    | tick ts => simp [Takes, eq_comm]
    | newToken h time timerCb => rcases hh : w.handler h <;> simp [Takes, hh, eq_comm]
    | registerTimer h => rcases hh : w.handler h <;> simp [Takes, hh, eq_comm]
    | triggerTimerCheck h => rcases hh : w.handler h <;> simp [Takes, hh, eq_comm]
    | startTimerThread => rcases ht : w.thread <;> simp [Takes, ht, eq_comm]
    | checkTimer => rcases ht : w.thread <;> simp [Takes, ht, eq_comm]
    | wake => rcases ht : w.thread <;> simp [Takes, ht, eq_comm]
    | _ => simp [Takes, eq_comm]

theorem drawn_le {w u : TimerWorld ε} {l : TimerStep ε} (hs : w.step l = some u) :
    w.drawn ≤ u.drawn := by
  have ht := (step_eq_some.1 hs).2
  cases l with
  | nextNonce =>
    subst ht
    exact Nat.le_succ _
  | newToken h time timerCb =>
    obtain ⟨-, rfl⟩ := ht
    exact Nat.le_succ _
  | registerTimer h =>
    obtain ⟨tt, timerCb, -, rfl⟩ := ht
    unfold register
    split <;> exact le_rfl
  | cancelTimer tt =>
    subst ht
    exact le_rfl
  | disconnectPrepare =>
    subst ht
    exact le_rfl
  | _ =>
    obtain ⟨-, rfl⟩ := ht
    exact le_rfl

end TimerWorld

def timer (ε : Type*) : Machine (TimerWorld ε) (TimerStep ε) where
  step := TimerWorld.step

theorem timer_step {ε : Type*} (w : TimerWorld ε) (l : TimerStep ε) :
    (timer ε).step w l = w.step l := rfl

end Longda
