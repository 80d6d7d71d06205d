import Longda.Comm.CommEvent
import Longda.Lib.Ends
import Mathlib.Logic.Function.Basic

/-!
# A connection as its receive thread sees it

`World` is one connection with the process around it: the members of `Conn` the receive path uses,
the parameter its receive vectors share, the events, the local files, the mutexes the thread holds
and a record of the calls that leave the receive path. `Env` is what does not change: the block
size, the deserializer, and how the allocator, the file system and the clock will answer.

A callback is a computation over the world that may end with a `Fault`. `operator new` throws and
never returns null, so the branches of the source on a null buffer are never taken; only the
allocation of buffers, whose size the peer chooses, is taken to fail.
-/

namespace Longda

open Lib

/-- `Conn::nextrecv_t`. -/
inductive NextRecv where
  | HEADER
  | MESSAGE
  | ATTACHMENT
  | ATTACHFILE
  | DRAIN
  deriving DecidableEq, Repr

/-- `Conn::status_t`, as far as the receive path returns it. -/
inductive ConnStatus where
  | SUCCESS
  | CONN_READY
  | CONN_ERR_NOVEC
  | CONN_ERR_NOCEV
  | CONN_ERR_MISMATCH
  | CONN_ERR_BROKEN
  | CONN_ERR_WRITEFILE
  | CONN_ERR_BUSY
  | CONN_ERR_UNAVAIL
  deriving DecidableEq, Repr

inductive MutexId where
  | mapMutex
  | mMutex
  | mSendMutex
  | mRecvMutex
  | mEventMapMutex
  deriving DecidableEq, Repr

/-- What ends a computation before it returns. -/
inductive Fault where
  /-- `operator new` throws. -/
  | badAlloc
  /-- An `ASSERT` fails and the process aborts. -/
  | assertFailed (description : String)
  /-- The busy wait of `eventDone` does not end by this thread. -/
  | busyWait
  /-- The behaviour is undefined. -/
  | undefined
  deriving DecidableEq, Repr

/-- How a call of `writeToFile` ends: a write that fails may have left some bytes. -/
inductive WriteResult where
  | written
  | notOpened
  | short (count : ℕ)
  deriving DecidableEq, Repr

structure Env where
  gMaxBlockSize : ℕ
  gMaxBlockSize_pos : 0 < gMaxBlockSize
  gMaxBlockSize_lt : gMaxBlockSize < 2 ^ 31
  /-- `gDeserializable->deserialize(buffer, size)`. -/
  deserialize : List UInt8 → Int32 → Option Message
  /-- Whether the allocator grants the buffer asked for after so many others. -/
  mem : ℕ → Bool
  disk : ℕ → WriteResult
  /-- `gSelectDir->select()` and `Now::usec()`. -/
  select : ℕ → Path
  usec : ℕ → Int64

/-- The calls of the receive path that are recorded. -/
inductive Call where
  /-- `getNextStage()->addEvent(cev)`. -/
  | addEvent (cev : EventId)
  | completeEvent (cev : EventId) (status : Int32)
  | done (cev : EventId)
  | sendResponse (requestId : UInt32) (status : Int32) (errMsg : String)
  | prepare2Drain (leftSize : UInt64)
  deriving DecidableEq, Repr

structure World where
  mNextRecvPart : NextRecv := .HEADER
  mRecvQ : List IoVec := []
  /-- The parameter all receive vectors share. -/
  mRecvCb : CbParam := {}
  mSendEventMap : List (UInt32 × EventId) := []
  mRefCount : ℤ := 0
  mCleaning : Bool := false
  mSock : Int32 := -1
  peerHost : Path := []
  msgIn : ℕ := 0
  /-- The mutexes this thread holds. -/
  held : MutexId → Bool := fun _ => false
  events : EventId → CommEvent := fun _ => {}
  nextEvent : EventId := 0
  localFiles : Path → Option (List UInt8) := fun _ => none
  calls : List Call := []
  /-- How many buffers have been asked for, files written and file names made. -/
  news : ℕ := 0
  writes : ℕ := 0
  names : ℕ := 0

abbrev RecvM := EStateM Fault World

variable {Q : PUnit → World → Prop} {R : Fault → World → Prop} {w : World}

def ASSERT (c : Bool) (description : String) : RecvM Unit :=
  if c then pure () else throw (.assertFailed description)

@[simp] theorem ends_ASSERT {c : Bool} {d : String} {Q : Unit → World → Prop} :
    Ends (ASSERT c d) w Q R ↔ if c then Q () w else R (.assertFailed d) w := by
  simp [ASSERT]

/-- `new char[n]`. -/
def newChar (env : Env) : RecvM Unit := do
  let w ← get
  set { w with news := w.news + 1 }
  if env.mem w.news then pure () else throw .badAlloc

@[simp] theorem ends_newChar {env : Env} {Q : Unit → World → Prop} :
    Ends (newChar env) w Q R ↔
      if env.mem w.news then Q () { w with news := w.news + 1 }
      else R .badAlloc { w with news := w.news + 1 } := by
  simp [newChar]

def call (c : Call) : RecvM Unit := modify fun w => { w with calls := w.calls ++ [c] }

@[simp] theorem ends_call {c : Call} {Q : Unit → World → Prop} :
    Ends (call c) w Q R ↔ Q () { w with calls := w.calls ++ [c] } := ends_modify

/-! ## Mutexes -/

def EDEADLK : ℕ := 35
def EPERM : ℕ := 1

/-- `pthread_mutex_lock` on an error-checking mutex. -/
def mutexLock (m : MutexId) : RecvM ℕ := do
  let w ← get
  if w.held m then pure EDEADLK
  else do
    set { w with held := Function.update w.held m true }
    pure 0

/-- `pthread_mutex_unlock` on an error-checking mutex. -/
def mutexUnlock (m : MutexId) : RecvM ℕ := do
  let w ← get
  if w.held m then do
    set { w with held := Function.update w.held m false }
    pure 0
  else pure EPERM

@[simp] theorem ends_mutexLock {m : MutexId} {Q : ℕ → World → Prop} :
    Ends (mutexLock m) w Q R ↔
      if w.held m then Q EDEADLK w
      else Q 0 { w with held := Function.update w.held m true } := by
  simp [mutexLock]

@[simp] theorem ends_mutexUnlock {m : MutexId} {Q : ℕ → World → Prop} :
    Ends (mutexUnlock m) w Q R ↔
      if w.held m then Q 0 { w with held := Function.update w.held m false }
      else Q EPERM w := by
  simp [mutexUnlock]

/-- The shape of the short accessors of `Conn`: lock, access, and unlock where the lock was got.
A thread that holds the mutex goes on without it. -/
def critical {α : Type} (m : MutexId) (f : World → α × World) : RecvM α := do
  let rv ← mutexLock m
  let w ← get
  set (f w).2
  if rv = 0 then do
    let rv ← mutexUnlock m
    ASSERT (rv == 0) "thread failed to release mutex"
    pure (f w).1
  else pure (f w).1

/-- An access that ignores the mutexes is what is left of it, whoever holds the mutex. -/
theorem ends_critical {α : Type} {m : MutexId} {f : World → α × World} {Q : α → World → Prop}
    (hf : ∀ w h, f { w with held := h } = ((f w).1, { (f w).2 with held := h })) :
    Ends (critical m f) w Q R ↔ Q (f w).1 (f w).2 := by
  have hw : { (f w).2 with held := w.held } = (f w).2 := (congrArg Prod.snd (hf w w.held)).symm
  by_cases h : w.held m
  · simp [critical, h, EDEADLK]
  · have hu : Function.update (Function.update w.held m true) m false = w.held := by
      simp [Function.update_eq_self_iff, h]
    simp only [critical, ends_bind, ends_mutexLock, h, Bool.false_eq_true, if_false, ends_get,
      ends_set, ends_ite, if_true]
    rw [hf]
    simp [hu, hw]

/-! ## Accessors of the connection -/

def postRecv (iov : IoVec) : RecvM Unit :=
  critical .mRecvMutex fun w => ((), { w with mRecvQ := w.mRecvQ ++ [iov] })

def postRecvs (iovs : List IoVec) : RecvM Unit :=
  critical .mRecvMutex fun w => ((), { w with mRecvQ := w.mRecvQ ++ iovs })

def setNextRecv (nr : NextRecv) : RecvM Unit :=
  critical .mMutex fun w => ((), { w with mNextRecvPart := nr })

def getNextRecv : RecvM NextRecv := critical .mMutex fun w => (w.mNextRecvPart, w)

def addEventEntry (msgId : UInt32) (event : EventId) : RecvM Unit :=
  critical .mEventMapMutex fun w =>
    ((), { w with mSendEventMap :=
      if (w.mSendEventMap.lookup msgId).isSome then w.mSendEventMap
      else w.mSendEventMap ++ [(msgId, event)] })

def removeEventEntry (msgId : UInt32) : RecvM Unit :=
  critical .mEventMapMutex fun w =>
    ((), { w with mSendEventMap := w.mSendEventMap.filter (·.1 != msgId) })

def getAndRmEvent (msgId : UInt32) : RecvM (Option EventId) :=
  critical .mEventMapMutex fun w =>
    (w.mSendEventMap.lookup msgId,
      { w with mSendEventMap := w.mSendEventMap.filter (·.1 != msgId) })

@[simp] theorem ends_postRecv {iov : IoVec} {Q : Unit → World → Prop} :
    Ends (postRecv iov) w Q R ↔ Q () { w with mRecvQ := w.mRecvQ ++ [iov] } :=
  ends_critical fun _ _ => rfl

@[simp] theorem ends_postRecvs {iovs : List IoVec} {Q : Unit → World → Prop} :
    Ends (postRecvs iovs) w Q R ↔ Q () { w with mRecvQ := w.mRecvQ ++ iovs } :=
  ends_critical fun _ _ => rfl

@[simp] theorem ends_setNextRecv {nr : NextRecv} {Q : Unit → World → Prop} :
    Ends (setNextRecv nr) w Q R ↔ Q () { w with mNextRecvPart := nr } :=
  ends_critical fun _ _ => rfl

@[simp] theorem ends_getNextRecv {Q : NextRecv → World → Prop} :
    Ends getNextRecv w Q R ↔ Q w.mNextRecvPart w :=
  ends_critical fun _ _ => rfl

@[simp] theorem ends_removeEventEntry {msgId : UInt32} {Q : Unit → World → Prop} :
    Ends (removeEventEntry msgId) w Q R ↔
      Q () { w with mSendEventMap := w.mSendEventMap.filter (·.1 != msgId) } :=
  ends_critical fun _ _ => rfl

@[simp] theorem ends_getAndRmEvent {msgId : UInt32} {Q : Option EventId → World → Prop} :
    Ends (getAndRmEvent msgId) w Q R ↔
      Q (w.mSendEventMap.lookup msgId)
        { w with mSendEventMap := w.mSendEventMap.filter (·.1 != msgId) } :=
  ends_critical fun _ _ => rfl

/-! ## The parameter and the events -/

def getCb : RecvM CbParam := do
  let w ← get
  pure w.mRecvCb

def modifyCb (f : CbParam → CbParam) : RecvM Unit :=
  modify fun w => { w with mRecvCb := f w.mRecvCb }

def getEvent (cev : EventId) : RecvM CommEvent := do
  let w ← get
  pure (w.events cev)

def modifyEvent (cev : EventId) (f : CommEvent → CommEvent) : RecvM Unit :=
  modify fun w => { w with events := Function.update w.events cev (f (w.events cev)) }

/-- `CommEvent::completeEvent`. -/
def completeEvent (cev : EventId) (stev : Int32) : RecvM Unit := do
  modifyEvent cev fun e => { e with status := stev }
  call (.completeEvent cev stev)

@[simp] theorem ends_getCb {Q : CbParam → World → Prop} :
    Ends getCb w Q R ↔ Q w.mRecvCb w := Iff.rfl

@[simp] theorem ends_modifyCb {f : CbParam → CbParam} {Q : Unit → World → Prop} :
    Ends (modifyCb f) w Q R ↔ Q () { w with mRecvCb := f w.mRecvCb } := ends_modify

@[simp] theorem ends_getEvent {cev : EventId} {Q : CommEvent → World → Prop} :
    Ends (getEvent cev) w Q R ↔ Q (w.events cev) w := Iff.rfl

@[simp] theorem ends_modifyEvent {cev : EventId} {f : CommEvent → CommEvent}
    {Q : Unit → World → Prop} :
    Ends (modifyEvent cev f) w Q R ↔
      Q () { w with events := Function.update w.events cev (f (w.events cev)) } := ends_modify

@[simp] theorem ends_completeEvent {cev : EventId} {stev : Int32} {Q : Unit → World → Prop} :
    Ends (completeEvent cev stev) w Q R ↔
      Q () { w with
        events := Function.update w.events cev { w.events cev with status := stev }
        calls := w.calls ++ [.completeEvent cev stev] } := by
  simp [completeEvent]

end Longda
