import Mathlib.Algebra.Group.Nat.Defs
import Mathlib.Logic.Function.Basic
import Longda.Lib.Crew
import Longda.Lib.Machine

/-!
# Stages and thread pools

A stage keeps the events added to it and asks its pool, once for each event, to run it; the pool
keeps the stages to run, and each of its threads takes one of them, removes an event from it and
handles the event. A pool kills threads with a stage of its own, whose handler ends the thread it
runs on. `seda` takes one critical section of a mutex at a time, and what a call reads outside them
in a step of its own. Any number of threads outside the pools add events to a stage, connect and
disconnect it and give it a pool, at any time; `killThreads` of one pool is called again only when
it has returned.
-/

namespace Longda

open Lib

/-- The stages of the pipelines, and the `killer` of each pool. -/
inductive StageId where
  | stage (n : ℕ)
  | killer (pool : ℕ)
  deriving DecidableEq

structure SedaStage (ε : Type*) where
  eventList : List ε := []
  connected : Bool := false
  /-- An `unsigned long`, which is zero only if this is: no list in memory has `2 ^ 64` events. -/
  eventRef : ℤ := 0
  thPool : Option ℕ := none
  /-- All events that have been added, in this order. -/
  entered : List ε := []
  /-- All events that have been removed, in this order. -/
  removed : List ε := []

namespace SedaStage

variable {ε : Type*}

/-- The critical section of `addEvent`, with the schedule call still to be made if connected. -/
def addEvent (s : SedaStage ε) (event : ε) : SedaStage ε :=
  { s with
    eventList := s.eventList ++ [event]
    entered := s.entered ++ [event]
    eventRef := if s.connected then s.eventRef + 1 else s.eventRef }

/-- `removeEvent`, unless its assertion fails. -/
def removeEvent (s : SedaStage ε) : Option (ε × SedaStage ε) :=
  match s.eventList with
  | [] => none
  | se :: rest => some (se, { s with eventList := rest, removed := s.removed ++ [se] })

def releaseEvent (s : SedaStage ε) : SedaStage ε := { s with eventRef := s.eventRef - 1 }

/-- What `connect` is to schedule, an `unsigned int`. -/
def backlog (s : SedaStage ε) : ℕ := s.eventList.length % 2 ^ 32

/-- The critical section of `connect`. -/
def connect (s : SedaStage ε) : SedaStage ε := { s with eventRef := s.backlog, connected := true }

end SedaStage

/-- How far the calls of `connect` and `disconnect` of a stage are. -/
structure Lifecycle where
  /-- The calls of `connect` that are past the assertions and `initialize`. -/
  connects : ℕ := 0
  /-- The backlogs of those that have unlocked and have yet to read `connected` again. -/
  backlogs : List ℕ := []
  /-- The calls of `disconnect` that are past the assertion. -/
  disconnects : ℕ := 0
  /-- Those in the wait. -/
  waits : ℕ := 0

/-- Where a thread of a pool is. -/
inductive WorkerPc (ε : Type*) where
  /-- At the start of the loop of `runThread`. -/
  | looking
  /-- Blocked on `runCond`. -/
  | waiting
  /-- Its wait has a signal and is not over yet. -/
  | signalled
  /-- It has taken the stage off the run queue. -/
  | popped (s : StageId)
  /-- It handles the event of the stage, and may be about to schedule another stage. -/
  | handling (s : StageId) (event : ε) (call : Option StageId)
  /-- In the handler of a `KillThreadStage` after `threadKill`. -/
  | dying (s : StageId) (event : ε)
  | exited

structure Worker (ε : Type*) where
  pool : ℕ
  pc : WorkerPc ε

namespace Worker

variable {ε : Type*}

/-- The thread is blocked on the run condition of the pool. -/
def waitsIn (p : ℕ) (x : Worker ε) : Bool :=
  decide (x.pool = p) && match x.pc with
    | .waiting => true
    | _ => false

def signal (x : Worker ε) : Worker ε := { x with pc := .signalled }

end Worker

/-- Where the thread in `killThreads` is. It holds `threadMutex` except while it waits. -/
inductive KillPc where
  | none
  /-- `killer.connect` has unlocked and has yet to read `connected` again. -/
  | unlocked (backlog total : ℕ)
  /-- `killer.connect` has so many schedule calls still to make. -/
  | connecting (backlog total : ℕ)
  /-- In `genKillThreadEvents`, with so many of the events still to be added. -/
  | generating (left total : ℕ)
  /-- In the schedule call of an event. -/
  | scheduling (left total : ℕ)
  /-- Blocked on `threadCond`. -/
  | waiting (total : ℕ)
  | signalled (total : ℕ)
  /-- In `killer.disconnect`. -/
  | disconnecting (total : ℕ)

namespace KillPc

def locks : KillPc → Bool
  | .none | .waiting _ | .signalled _ => false
  | _ => true

def signal : KillPc → KillPc
  | .waiting total => .signalled total
  | k => k

/-- Where it goes on after its schedule call, if it is about to make one. -/
def called : KillPc → Option KillPc
  | .connecting (n + 1) total => some (.connecting n total)
  | .scheduling left total => some (.generating left total)
  | _ => Option.none

end KillPc

structure Pool where
  runQueue : List StageId := []
  nthreads : ℕ := 0
  threadsToKill : ℕ := 0
  nIdles : ℕ := 0
  kill : KillPc := .none
  /-- What the last `killThreads` was called with, the threads at that time, and those added
  since. -/
  asked : ℕ := 0
  before : ℕ := 0
  added : ℕ := 0

/-- The assertions: those of `setPool`, `connect` and `disconnect` on how they are called, that of
`schedule`, and that of `removeEvent`; a null pool counts as one. -/
inductive SedaAssert where
  | lifecycle (s : StageId)
  | pool (s : StageId)
  | schedule (s : StageId)
  | removeEvent (s : StageId)

structure SedaWorld (ε : Type*) where
  stages : StageId → SedaStage ε := fun _ => {}
  life : ℕ → Lifecycle := fun _ => {}
  pools : ℕ → Pool := fun _ => {}
  workers : List (Worker ε) := []
  /-- The schedule calls that threads outside the pools are about to make. -/
  calls : List StageId := []
  aborted : Option SedaAssert := none

inductive SedaStep (ε : Type*) where
  | addThreads (p n : ℕ)
  /-- A thread outside the pools calls `addEvent`; the killers are private. -/
  | addEvent (n : ℕ) (event : ε)
  | schedule (s : StageId) (woken : ℕ)
  | look (i : ℕ)
  /-- The wait of a thread is over, by a signal or for no reason. -/
  | wake (i : ℕ)
  | removeEvent (i : ℕ)
  /-- A handler calls `addEvent`. -/
  | handlerAddEvent (i n : ℕ) (event : ε)
  | handlerSchedule (i woken : ℕ)
  | threadKill (i : ℕ)
  | releaseEvent (i : ℕ)
  | setPool (n p : ℕ)
  /-- `connect` as far as the lock, where `initialize` returns `success`. -/
  | connect (n : ℕ) (success : Bool)
  | connectLock (n : ℕ)
  /-- `connect` reads `connected` again, with the backlog it found. -/
  | connectRead (n backlog : ℕ)
  /-- `disconnect` as far as the lock. -/
  | disconnect (n : ℕ)
  | disconnectLock (n : ℕ)
  | disconnectReturn (n : ℕ)
  | killThreads (p threads : ℕ)
  | killRead (p : ℕ)
  | killConnected (p : ℕ)
  | killAddEvent (p : ℕ) (event : ε)
  | killSchedule (p woken : ℕ)
  | killWait (p : ℕ)
  /-- The wait of `killThreads` is over, by a signal or for no reason. -/
  | killWake (p : ℕ)
  | killReturn (p : ℕ)

namespace SedaWorld

variable {ε : Type*}

def abort (w : SedaWorld ε) (a : SedaAssert) : SedaWorld ε := { w with aborted := some a }

def setStage (w : SedaWorld ε) (s : StageId) (st : SedaStage ε) : SedaWorld ε :=
  { w with stages := Function.update w.stages s st }

def setLife (w : SedaWorld ε) (n : ℕ) (l : Lifecycle) : SedaWorld ε :=
  { w with life := Function.update w.life n l }

def setPool (w : SedaWorld ε) (p : ℕ) (pool : Pool) : SedaWorld ε :=
  { w with pools := Function.update w.pools p pool }

def setKill (w : SedaWorld ε) (p : ℕ) (k : KillPc) : SedaWorld ε :=
  w.setPool p { w.pools p with kill := k }

def setWorker (w : SedaWorld ε) (i p : ℕ) (pc : WorkerPc ε) : SedaWorld ε :=
  { w with workers := w.workers.set i ⟨p, pc⟩ }

/-- `runQueue.push_back`. -/
def pushBack (w : SedaWorld ε) (p : ℕ) (s : StageId) : SedaWorld ε :=
  w.setPool p { w.pools p with runQueue := (w.pools p).runQueue ++ [s] }

theorem setPool_pools (w : SedaWorld ε) (p : ℕ) (pool : Pool) (q : ℕ) :
    (w.setPool p pool).pools q = if q = p then pool else w.pools q :=
  Function.update_apply _ _ _ _

/-- What the new pool has in common with the old one is as it was in every pool. -/
theorem setPool_keeps {β : Type*} {w : SedaWorld ε} {p : ℕ} {pool : Pool} (f : Pool → β)
    (h : f pool = f (w.pools p)) (q : ℕ) : f ((w.setPool p pool).pools q) = f (w.pools q) := by
  rw [setPool_pools]
  split_ifs with hqp
  · rw [h, hqp]
  · rfl

theorem setStage_stages (w : SedaWorld ε) (s : StageId) (st : SedaStage ε) (r : StageId) :
    (w.setStage s st).stages r = if r = s then st else w.stages r :=
  Function.update_apply _ _ _ _

theorem setLife_life (w : SedaWorld ε) (n : ℕ) (l : Lifecycle) (m : ℕ) :
    (w.setLife n l).life m = if m = n then l else w.life m :=
  Function.update_apply _ _ _ _

theorem setKill_kill (w : SedaWorld ε) (p : ℕ) (k : KillPc) (q : ℕ) :
    ((w.setKill p k).pools q).kill = if q = p then k else (w.pools q).kill := by
  unfold setKill
  rw [setPool_pools]
  split_ifs <;> rfl

theorem setKill_runQueue (w : SedaWorld ε) (p : ℕ) (k : KillPc) (q : ℕ) :
    ((w.setKill p k).pools q).runQueue = (w.pools q).runQueue :=
  setPool_keeps Pool.runQueue (by rfl) q

theorem pushBack_runQueue (v : SedaWorld ε) (p : ℕ) (s : StageId) (q : ℕ) :
    ((v.pushBack p s).pools q).runQueue
      = if q = p then (v.pools p).runQueue ++ [s] else (v.pools q).runQueue := by
  unfold pushBack
  rw [setPool_pools]
  split_ifs <;> rfl

theorem pushBack_kill (v : SedaWorld ε) (p : ℕ) (s : StageId) (q : ℕ) :
    ((v.pushBack p s).pools q).kill = (v.pools q).kill := setPool_keeps Pool.kill (by rfl) q

/-- The critical section of `Threadpool::schedule` in a thread of the pool `caller`. -/
def push (w : SedaWorld ε) (p : ℕ) (s : StageId) (caller : Option ℕ) (woken : ℕ) :
    Option (SedaWorld ε) :=
  if ((w.pools p).runQueue ≠ [] ∨ caller ≠ some p) ∧ 0 < (w.pools p).nIdles then
    (wakeOne (Worker.waitsIn p) Worker.signal w.workers woken).map fun ws =>
      { w.pushBack p s with workers := ws }
  else some (w.pushBack p s)

/-- `thPool->schedule(s)`. -/
def schedule (w : SedaWorld ε) (s : StageId) (caller : Option ℕ) (woken : ℕ) :
    Option (SedaWorld ε) :=
  match (w.stages s).thPool with
  | none => some (w.abort (.pool s))
  | some p =>
    if (w.stages s).eventList = [] then some (w.abort (.schedule s)) else w.push p s caller woken

/-- The critical section of `runThread` in the thread `i`, up to the wait if there is one. -/
def look (w : SedaWorld ε) (i p : ℕ) : SedaWorld ε :=
  match (w.pools p).runQueue with
  | [] => (w.setPool p { w.pools p with nIdles := (w.pools p).nIdles + 1 }).setWorker i p .waiting
  | s :: rest => (w.setPool p { w.pools p with runQueue := rest }).setWorker i p (.popped s)

/-- `addEvent`, as far as the schedule call, which a connected stage needs a pool for. -/
def addEvent (w : SedaWorld ε) (s : StageId) (event : ε) : SedaWorld ε :=
  { w.setStage s ((w.stages s).addEvent event) with
    aborted := if (w.stages s).connected ∧ (w.stages s).thPool = none then some (.pool s)
      else w.aborted }

/-- `threadKill` in the pool `p`. -/
def threadKill (w : SedaWorld ε) (p : ℕ) : SedaWorld ε :=
  let pool := w.pools p
  w.setPool p { pool with
    nthreads := pool.nthreads - 1
    threadsToKill := pool.threadsToKill - 1
    kill := if pool.threadsToKill - 1 = 0 then pool.kill.signal else pool.kill }

/-- `connect` as far as the lock. If `initialize` fails, there is no backlog to schedule. -/
def connect (w : SedaWorld ε) (n : ℕ) (success : Bool) : SedaWorld ε :=
  if (w.stages (.stage n)).connected ∨ (w.stages (.stage n)).thPool = none then
    w.abort (.lifecycle (.stage n))
  else if success then
    w.setLife n { w.life n with connects := (w.life n).connects + 1 }
  else w

/-- The critical section of `connect`. -/
def connectLock (w : SedaWorld ε) (n : ℕ) : SedaWorld ε :=
  (w.setStage (.stage n) (w.stages (.stage n)).connect).setLife n { w.life n with
    connects := (w.life n).connects - 1
    backlogs := (w.stages (.stage n)).backlog :: (w.life n).backlogs }

/-- What `connect` does after its unlock, as far as the schedule calls. -/
def connectRead (w : SedaWorld ε) (n backlog : ℕ) : SedaWorld ε :=
  { w.setLife n { w.life n with backlogs := (w.life n).backlogs.erase backlog } with
    calls := if (w.stages (.stage n)).connected then List.replicate backlog (.stage n) ++ w.calls
      else w.calls }

/-- `disconnect` as far as the lock. -/
def disconnect (w : SedaWorld ε) (n : ℕ) : SedaWorld ε :=
  if (w.stages (.stage n)).connected then
    w.setLife n { w.life n with disconnects := (w.life n).disconnects + 1 }
  else w.abort (.lifecycle (.stage n))

/-- `disconnect` from the lock to its wait. -/
def disconnectLock (w : SedaWorld ε) (n : ℕ) : SedaWorld ε :=
  (w.setStage (.stage n) { w.stages (.stage n) with connected := false }).setLife n { w.life n with
    disconnects := (w.life n).disconnects - 1
    waits := (w.life n).waits + 1 }

/-- The end of `disconnect`. -/
def disconnected (w : SedaWorld ε) (s : StageId) : SedaWorld ε :=
  w.setStage s { w.stages s with thPool := none }

/-- No more threads are to be killed than there are. -/
def startKill (pool : Pool) (threads backlog : ℕ) : Pool :=
  { pool with
    kill := .unlocked backlog (min threads pool.nthreads)
    asked := threads
    before := pool.nthreads
    added := 0 }

/-- `killThreads` as far as the unlock of `killer.connect`. -/
def killThreads (w : SedaWorld ε) (p threads : ℕ) : SedaWorld ε :=
  let killer := w.stages (.killer p)
  if 0 < (w.pools p).threadsToKill then w
  else if killer.connected then w.abort (.lifecycle (.killer p))
  else (w.setPool p (startKill (w.pools p) threads killer.backlog)).setStage (.killer p)
    { killer with thPool := some p }.connect

/-- `killer.disconnect` as far as its wait. -/
def killDisconnect (w : SedaWorld ε) (p total : ℕ) : SedaWorld ε :=
  let killer := w.stages (.killer p)
  if killer.connected then
    (w.setKill p (.disconnecting total)).setStage (.killer p) { killer with connected := false }
  else w.abort (.lifecycle (.killer p))

def step (w : SedaWorld ε) (l : SedaStep ε) : Option (SedaWorld ε) :=
  if w.aborted.isSome then none
  else match l with
  | .addThreads p n =>
    if (w.pools p).kill.locks then none
    else some { w.setPool p { w.pools p with
        nthreads := (w.pools p).nthreads + n, added := (w.pools p).added + n } with
      workers := w.workers ++ List.replicate n ⟨p, .looking⟩ }
  | .addEvent n event =>
    some { w.addEvent (.stage n) event with
      calls := if (w.stages (.stage n)).connected then .stage n :: w.calls else w.calls }
  | .schedule s woken =>
    if s ∈ w.calls then { w with calls := w.calls.erase s }.schedule s none woken else none
  | .look i => match w.workers[i]? with
    | some ⟨p, .looking⟩ => some (w.look i p)
    | _ => none
  | .wake i => match w.workers[i]? with
    | some ⟨p, .waiting⟩ | some ⟨p, .signalled⟩ =>
      some ((w.setPool p { w.pools p with nIdles := (w.pools p).nIdles - 1 }).look i p)
    | _ => none
  | .removeEvent i => match w.workers[i]? with
    | some ⟨p, .popped s⟩ => match (w.stages s).removeEvent with
      | none => some (w.abort (.removeEvent s))
      | some (event, st) => some ((w.setStage s st).setWorker i p (.handling s event none))
    | _ => none
  -- the handler of a `KillThreadStage` adds no events
  | .handlerAddEvent i n event => match w.workers[i]? with
    | some ⟨p, .handling (.stage m) e none⟩ =>
      some ((w.addEvent (.stage n) event).setWorker i p (.handling (.stage m) e
        (if (w.stages (.stage n)).connected then some (.stage n) else none)))
    | _ => none
  | .handlerSchedule i woken => match w.workers[i]? with
    | some ⟨p, .handling r e (some s)⟩ =>
      (w.setWorker i p (.handling r e none)).schedule s (some p) woken
    | _ => none
  | .threadKill i => match w.workers[i]? with
    | some ⟨p, .handling (.killer q) e none⟩ => match (w.stages (.killer q)).thPool with
      | none => some (w.abort (.pool (.killer q)))
      | some r =>
        if (w.pools r).kill.locks then none
        else some ((w.threadKill r).setWorker i p (.dying (.killer q) e))
    | _ => none
  | .releaseEvent i => match w.workers[i]? with
    | some ⟨p, .handling (.stage n) _ none⟩ =>
      some ((w.setStage (.stage n) (w.stages (.stage n)).releaseEvent).setWorker i p .looking)
    | some ⟨p, .dying s _⟩ =>
      some ((w.setStage s (w.stages s).releaseEvent).setWorker i p .exited)
    | _ => none
  | .setPool n p =>
    if (w.stages (.stage n)).connected then some (w.abort (.lifecycle (.stage n)))
    else some (w.setStage (.stage n) { w.stages (.stage n) with thPool := some p })
  | .connect n success => some (w.connect n success)
  | .connectLock n => if 0 < (w.life n).connects then some (w.connectLock n) else none
  | .connectRead n backlog =>
    if backlog ∈ (w.life n).backlogs then some (w.connectRead n backlog) else none
  | .disconnect n => some (w.disconnect n)
  | .disconnectLock n => if 0 < (w.life n).disconnects then some (w.disconnectLock n) else none
  | .disconnectReturn n =>
    if 0 < (w.life n).waits ∧ (w.stages (.stage n)).eventRef = 0 then
      some ((w.disconnected (.stage n)).setLife n { w.life n with waits := (w.life n).waits - 1 })
    else none
  | .killThreads p threads => match (w.pools p).kill with
    | .none => some (w.killThreads p threads)
    | _ => none
  | .killRead p => match (w.pools p).kill with
    | .unlocked n total => some (w.setKill p (.connecting
        (if (w.stages (.killer p)).connected then n else 0) total))
    | _ => none
  | .killConnected p => match (w.pools p).kill with
    | .connecting 0 total => some (w.setKill p (.generating total total))
    | _ => none
  | .killAddEvent p event => match (w.pools p).kill with
    | .generating (left + 1) total =>
      some ((w.addEvent (.killer p) event).setKill p
        (if (w.stages (.killer p)).connected then .scheduling left total
        else .generating left total))
    | _ => none
  | .killSchedule p woken => match (w.pools p).kill.called with
    | some k => (w.setKill p k).schedule (.killer p) none woken
    | none => none
  | .killWait p => match (w.pools p).kill with
    | .generating 0 total =>
      some (w.setPool p { w.pools p with threadsToKill := total, kill := .waiting total })
    | _ => none
  | .killWake p => match (w.pools p).kill with
    | .waiting total | .signalled total => some (w.killDisconnect p total)
    | _ => none
  | .killReturn p => match (w.pools p).kill with
    | .disconnecting _ =>
      if (w.stages (.killer p)).eventRef = 0 then
        some ((w.disconnected (.killer p)).setKill p .none)
      else none
    | _ => none

end SedaWorld

def seda (ε : Type*) : Machine (SedaWorld ε) (SedaStep ε) where
  step := SedaWorld.step

end Longda
