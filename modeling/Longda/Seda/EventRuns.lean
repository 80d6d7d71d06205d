import Longda.Seda.StageLife

/-!
# The events of a stage in every run

`connect` unlocks before it reads `connected` again to see whether it has events to schedule. A
`disconnect` that takes the lock in between makes it schedule none of them: the reference count
stays above zero, with no token, no call and no event in hand (`not_eventsAccounted`). In every run
in which that does not happen to a stage, and a `connect` or `setPool` of it still finds what it
asserted, the accounts of the stage balance (`run_eventsAccounted`), whatever happens to the others.
-/

namespace Longda

open Lib

variable {ε : Type*}

namespace SedaWorld

variable {w u : SedaWorld ε} {r : StageId}

/-- Every step that is orderly for the stage keeps its accounts. -/
theorem Sound.step {l : SedaStep ε} (hw : w.Sound r) (hm : w.Orderly r l)
    (hs : w.step l = some u) : u.Sound r := by
  obtain ⟨hab, ht⟩ := takes_of_step hs
  have hacc := hw.accounted
  cases l with
  | addThreads p n => exact sound_addThreads hacc hab ht
  | addEvent n event => exact sound_addEvent hacc hab ht
  | schedule s woken => exact sound_call hacc hab ht
  | look i => exact sound_look hacc hab ht
  | wake i => exact sound_wake hacc hab ht
  | removeEvent i => exact sound_removeEvent hacc hab ht
  | handlerAddEvent i n event => exact sound_handlerAddEvent hacc hab ht
  | handlerSchedule i woken => exact sound_handlerSchedule hacc hab ht
  | threadKill i => exact sound_threadKill hacc hab ht
  | releaseEvent i => exact sound_releaseEvent hacc hab ht
  | setPool n p => exact sound_setPool hacc hab ht hm
  | connect n success => exact sound_connect hacc hab ht
  | connectLock n => exact sound_connectLock hacc hab ht hm
  | connectRead n backlog => exact sound_connectRead hacc hab ht
  | disconnect n => exact sound_disconnect hacc hab ht
  | disconnectLock n => exact sound_disconnectLock hacc hab ht hm
  | disconnectReturn n => exact sound_disconnectReturn hacc hab ht
  | killThreads p threads => exact sound_killThreads hacc hab ht
  | killRead p => exact sound_killRead hacc hab ht
  | killConnected p => exact sound_killConnected hacc hab ht
  | killAddEvent p event => exact sound_killAddEvent hacc hab ht
  | killSchedule p woken => exact sound_killSchedule hacc hab ht
  | killWait p => exact sound_killWait hacc hab ht
  | killWake p => exact sound_killWake hacc hab ht
  | killReturn p => exact sound_killReturn hacc hab ht

/-- What the threads outside the pools do is nothing to a killer. -/
theorem orderly_killer (w : SedaWorld ε) (p : ℕ) (l : SedaStep ε) : w.Orderly (.killer p) l := by
  cases l with
  | setPool n q =>
    intro h
    cases h
  | connectLock n =>
    intro h
    cases h
  | disconnectLock n =>
    intro h
    cases h
  | _ => trivial

theorem Sound.killer_step {l : SedaStep ε} (hw : ∀ p, w.Sound (.killer p))
    (hs : w.step l = some u) (p : ℕ) : u.Sound (.killer p) :=
  (hw p).step (orderly_killer w p l) hs

/-- What the accounts of a stage come to. -/
structure EventsAccounted (w : SedaWorld ε) (s : StageId) : Prop where
  /-- The threads with an event of the stage in hand are those that have it and those that take it
  next. -/
  eventRef : (w.stages s).eventRef
    = ↑(w.tokens s + w.pending s + (w.popped s + w.processing s))
  eventList : w.tokens s + w.pending s + w.popped s ≤ (w.stages s).eventList.length
  /-- Neither the assertion of `schedule` nor that of `removeEvent` has failed for the stage. -/
  asserted : ∀ a, w.aborted = some a → a.stage = s → ∃ n, a = .lifecycle (.stage n)
  /-- The events removed are the first of those added, and the others are there. -/
  order : (w.stages s).entered = (w.stages s).removed ++ (w.stages s).eventList
  disconnected : ∀ n u, s = .stage n → w.step (.disconnectReturn n) = some u →
    w.popped s + w.processing s = 0
  killed : ∀ p u, s = .killer p → w.step (.killReturn p) = some u →
    w.popped s + w.processing s = 0

theorem Sound.eventsAccounted (hw : w.Sound r) : w.EventsAccounted r where
  eventRef := by
    have := hw.accounted.balanced.ref
    omega
  eventList := hw.accounted.balanced.len
  asserted := hw.asserted
  order := hw.accounted.balanced.order
  disconnected := fun n u hr hs => by
    subst hr
    obtain ⟨-, -, h0, -⟩ := takes_of_step hs
    obtain ⟨-, -, hpop, hproc⟩ := hw.accounted.balanced.idle h0
    rw [hpop, hproc]
  killed := fun p u hr hs => by
    subst hr
    obtain ⟨-, total, -, h0, -⟩ := takes_of_step hs
    obtain ⟨-, -, hpop, hproc⟩ := hw.accounted.balanced.idle h0
    rw [hpop, hproc]

theorem run_sound {ls : List (SedaStep ε)} (hr : (seda ε).run {} ls = some w) {s : StageId}
    (hm : (seda ε).Meets (fun w l => w.Orderly s l) {} ls) : w.Sound s :=
  (seda ε).run_inv (fun _ _ _ hw hm hs => Sound.step hw hm hs) ls (sound_start s) hm hr

/-- The events of a stage are accounted for in every state of a run that is orderly for it. -/
theorem run_eventsAccounted {ls : List (SedaStep ε)} (hr : (seda ε).run {} ls = some w)
    {s : StageId} (hm : (seda ε).Meets (fun w l => w.Orderly s l) {} ls) : w.EventsAccounted s :=
  (run_sound hr hm).eventsAccounted

/-- An event is waiting when the stage is connected, a second is added, one is handled, and the
stage is being disconnected before its `connect` has made the schedule call. -/
theorem run_eventsAccounted_backlog : ∃ w, (seda ℕ).run {}
      [.addThreads 0 1, .addEvent 0 7, .setPool 0 0, .connect 0 true, .connectLock 0,
        .connectRead 0 1, .addEvent 0 8, .schedule (.stage 0) 0, .look 0, .removeEvent 0,
        .disconnect 0, .disconnectLock 0] = some w
    ∧ (w.stages (.stage 0)).eventRef = 2 ∧ w.pending (.stage 0) = 1
    ∧ w.processing (.stage 0) = 1 ∧ w.EventsAccounted (.stage 0) :=
  ⟨_, rfl, rfl, rfl, rfl, @run_eventsAccounted ℕ _ [.addThreads 0 1, .addEvent 0 7,
    .setPool 0 0, .connect 0 true, .connectLock 0, .connectRead 0 1, .addEvent 0 8,
    .schedule (.stage 0) 0, .look 0, .removeEvent 0, .disconnect 0, .disconnectLock 0] rfl _
    (by decide)⟩

/-- A `disconnect` takes the lock between the unlock of `connect`, which has an event to schedule,
and its reading of `connected`. The event is neither scheduled nor handled, and `disconnect` waits
for it. -/
theorem not_eventsAccounted : ∃ w, (seda ℕ).run {}
      [.addThreads 0 1, .addEvent 0 7, .setPool 0 0, .connect 0 true, .connectLock 0,
        .disconnect 0, .disconnectLock 0, .connectRead 0 1] = some w
    ∧ (w.stages (.stage 0)).eventRef = 1 ∧ w.tokens (.stage 0) = 0 ∧ w.pending (.stage 0) = 0
    ∧ w.popped (.stage 0) + w.processing (.stage 0) = 0
    ∧ w.step (.disconnectReturn 0) = none ∧ ¬w.EventsAccounted (.stage 0) :=
  ⟨_, rfl, rfl, rfl, rfl, rfl, rfl, fun h => absurd h.eventRef (by decide)⟩

end SedaWorld

end Longda
