import Longda.Seda.TimerStage

/-!
# The timer thread does not oversleep

The timer thread waits for the first deadline as it was when it went to sleep. A cancellation only
makes the first deadline later. A registration that makes it earlier is the one that has put its
timer first, and its thread signals after the unlock; a shutdown signals in the critical section
that requests it.
-/

namespace Longda

open Lib

variable {ε : Type*}

namespace TimerStage

variable {s t : TimerStage ε} {tt : TimerToken} {cb : ε} {wakeTime : Option Timespec}

/-- A wait until `wakeTime`, without a limit if it is `none`, ends before any deadline is missed. -/
def InTime (s : TimerStage ε) (wakeTime : Option Timespec) : Prop :=
  ∀ e ∈ s.timerQueue.entries, ∃ ts, wakeTime = some ts ∧ ts ≤ e.1.time.toTimespec

theorem inTime_sleepUntil (s : TimerStage ε) : s.InTime s.sleepUntil := by
  intro e he
  unfold sleepUntil
  rcases hh : s.timerQueue.head? with _ | f
  · rw [OrderedMap.head?_eq_none_iff] at hh
    rw [hh] at he
    cases he
  · have hle := TimerToken.time_le_of_le (OrderedMap.le_of_head? hh he)
    exact ⟨_, rfl, Timeval.toTimespec_mono hle⟩

theorem InTime.mono (h : s.InTime wakeTime)
    (hsub : ∀ e ∈ t.timerQueue.entries, e ∈ s.timerQueue.entries) : t.InTime wakeTime :=
  fun e he => h e (hsub e he)

/-- A timer that is not put first is not due before the timer that is. -/
theorem InTime.registerTimer (h : s.InTime wakeTime)
    (hr : s.registerTimer tt cb = some (t, false)) : t.InTime wakeTime := by
  unfold TimerStage.registerTimer at hr
  split_ifs at hr with hf
  simp only [Option.some.injEq, Prod.mk.injEq] at hr
  obtain ⟨rfl, hfirst⟩ := hr
  rw [Bool.not_eq_true, Option.isSome_eq_false_iff, Option.isNone_iff_eq_none] at hf
  intro e he
  rcases (OrderedMap.mem_insert hf).1 he with rfl | hmem
  · rcases hh : (s.timerQueue.insert tt cb).head? with _ | f
    · rw [OrderedMap.head?_eq_none_iff] at hh
      rw [show _ = [] from hh] at he
      cases he
    · have hne : f.1 ≠ tt := by simpa [hh] using hfirst
      rcases (OrderedMap.mem_insert hf).1 (OrderedMap.mem_of_head? hh) with rfl | hfmem
      · exact absurd rfl hne
      · obtain ⟨ts, hts, hle⟩ := h f hfmem
        have hfirst := TimerToken.time_le_of_le (OrderedMap.le_of_head? hh he)
        exact ⟨ts, hts, hle.trans (Timeval.toTimespec_mono hfirst)⟩
  · exact h e hmem

end TimerStage

namespace TimerWorld

variable {w u : TimerWorld ε} {l : TimerStep ε}

/-- Where the timer thread sleeps without a signal, it wakes in time and is not to shut down, or the
thread that put a timer first has yet to signal. -/
def Awake (w : TimerWorld ε) : Prop :=
  ∀ wakeTime, w.thread = .blocked wakeTime →
    (w.stage.InTime wakeTime ∧ w.stage.shutdown = false) ∨ ∃ h, w.handler h = .signalling

theorem not_blocked_signal (t : TimerThread) (wakeTime : Option Timespec) :
    t.signal ≠ .blocked wakeTime := by
  unfold TimerThread.signal
  split
  · simp
  · rename_i h
    exact h wakeTime

/-- The thread that owes a signal still owes it after a step of another one. -/
theorem signalling_setHandler {h h' : ℕ} {pc : Handler ε} (hh : w.handler h' ≠ .signalling)
    (hs : w.handler h = .signalling) : (w.setHandler h' pc).handler h = .signalling := by
  have hne : h ≠ h' := by
    rintro rfl
    exact hh hs
  unfold setHandler
  dsimp only
  rw [Function.update_of_ne hne, hs]

theorem Awake.step (hw : w.Awake) (hs : w.step l = some u) : u.Awake := by
  have ht := (step_eq_some.1 hs).2
  intro wakeTime hb
  cases l with
  | tick ts =>
    obtain ⟨-, rfl⟩ := ht
    exact hw wakeTime hb
  | nextNonce =>
    subst ht
    exact hw wakeTime hb
  | newToken h time timerCb =>
    obtain ⟨hidle, rfl⟩ := ht
    refine (hw wakeTime hb).imp_right ?_
    rintro ⟨h', hh'⟩
    exact ⟨h', signalling_setHandler (w := w.nextNonce) (by simp [nextNonce, hidle]) hh'⟩
  | registerTimer h =>
    obtain ⟨tt, timerCb, hh, rfl⟩ := ht
    have hpc : w.handler h ≠ .signalling := by simp [hh]
    unfold register at hb ⊢
    rcases hr : w.stage.registerTimer tt timerCb with _ | ⟨stage, _ | _⟩
    · rw [hr] at hb
      exact hw wakeTime hb
    -- the timer is not the first one
    · rw [hr] at hb
      rcases hw wakeTime hb with ⟨hin, hsh⟩ | ⟨h', hh'⟩
      · left
        refine ⟨hin.registerTimer hr, ?_⟩
        show stage.shutdown = false
        unfold TimerStage.registerTimer at hr
        split_ifs at hr
        simp only [Option.some.injEq, Prod.mk.injEq] at hr
        rw [← hr.1]
        exact hsh
      · exact .inr ⟨h', signalling_setHandler (w := { w with
          stage := stage, log := .registered tt timerCb :: w.log }) hpc hh'⟩
    · right
      exact ⟨h, Function.update_self _ _ _⟩
  | triggerTimerCheck h =>
    obtain ⟨-, rfl⟩ := ht
    exact absurd hb (not_blocked_signal _ _)
  | cancelTimer tt =>
    subst ht
    refine (hw wakeTime hb).imp_left ?_
    rintro ⟨hin, hsh⟩
    show (w.stage.cancelTimer tt).1.InTime wakeTime ∧ (w.stage.cancelTimer tt).1.shutdown = false
    unfold TimerStage.cancelTimer
    split_ifs
    · exact ⟨hin.mono fun e he => (OrderedMap.mem_erase.1 he).1, hsh⟩
    · exact ⟨hin, hsh⟩
  | startTimerThread =>
    obtain ⟨-, rfl⟩ := ht
    cases hb
  | checkTimer =>
    obtain ⟨-, rfl⟩ := ht
    left
    have hthread : (if (w.stage.checkTimer w.now).shutdown then TimerThread.terminated
      else .blocked (w.stage.checkTimer w.now).sleepUntil) = .blocked wakeTime := hb
    split_ifs at hthread with hsh
    simp only [TimerThread.blocked.injEq] at hthread
    subst hthread
    exact ⟨TimerStage.inTime_sleepUntil _, Bool.eq_false_of_not_eq_true hsh⟩
  | wake =>
    obtain ⟨-, rfl⟩ := ht
    cases hb
  | disconnectPrepare =>
    subst ht
    exact absurd hb (not_blocked_signal _ _)

/-- In no state of a run is a timer left to wait without a wakeup to come. -/
theorem run_awake {clock : Timespec} {ls : List (TimerStep ε)} {w : TimerWorld ε}
    (hr : (timer ε).run { clock } ls = some w) : w.Awake :=
  (timer ε).run_inv_of_step (fun _ _ _ hs ht => Awake.step hs ht) ls (fun _ hb => by cases hb) hr

/-- The timer thread sleeps without a limit, and a timer has just been registered. -/
theorem run_awake_registered : ∃ w : TimerWorld Unit, (timer Unit).run { clock := ⟨0, 0⟩ }
      [.startTimerThread, .checkTimer, .newToken 0 ⟨5, 0⟩ (), .registerTimer 0] = some w
    ∧ w.thread = .blocked none ∧ w.stage.timerQueue.size = 1 ∧ w.Awake :=
  ⟨_, rfl, rfl, rfl, @run_awake Unit ⟨0, 0⟩ [.startTimerThread, .checkTimer,
    .newToken 0 ⟨5, 0⟩ (), .registerTimer 0] _ rfl⟩

end TimerWorld

end Longda
