import Longda.Net.ConnCb
import Longda.Net.IovUtil

/-!
# A connection with its socket and its end

`Link` adds to the connection what the callbacks do not touch: the vector being received into, the
send queue, the bytes waiting in the socket, and the place in the map of the connection manager.
`Link.cleanup` is `Conn::cleanup` with the callbacks it fires: `recvErrCb` for each vector to be
received, `sendCallback` for each to be sent, `connCallback` for the connection itself.
-/

namespace Longda

open Lib

/-- `Conn::cleanup_t`. -/
inductive CleanupT where
  | ON_CLEANUP
  | ON_ERROR
  deriving DecidableEq, Repr

/-- The state the callback of a vector is entered with when the connection is cleaned up. -/
def CleanupT.vecState : CleanupT → VecState
  | .ON_CLEANUP => .CLEANUP
  | .ON_ERROR => .ERROR

structure Link extends World where
  mCurRecvBlock : Option IoVec := none
  mReadyRecv : Bool := false
  mCurSendBlock : Option SendVec := none
  mSendQ : List SendVec := []
  mCleanType : CleanupT := .ON_CLEANUP
  /-- The bytes that wait in the socket. -/
  unread : List UInt8 := []
  recvs : ℕ := 0
  sent : List UInt8 := []
  /-- Whether `sockConnMap` has the connection. -/
  inMap : Bool := true
  deleted : Bool := false

abbrev LinkM := EStateM Fault Link

variable (env : Env) (files : Files)

/-- What the connection does within its world. -/
def inWorld {α : Type} (x : RecvM α) : LinkM α :=
  zoom Link.toWorld (fun l w => { l with toWorld := w }) x

@[simp] theorem ends_inWorld {α : Type} {x : RecvM α} {l : Link} {Q : α → Link → Prop}
    {R : Fault → Link → Prop} :
    Ends (inWorld x) l Q R ↔ Ends x l.toWorld (fun a w => Q a { l with toWorld := w })
      fun e w => R e { l with toWorld := w } := ends_zoom

/-- `MUTEX_LOCK` and the assertion behind it. -/
def lock (m : MutexId) : LinkM Unit := inWorld do
  let rv ← mutexLock m
  ASSERT (rv == 0) "thread failed to own mutex"

/-- `MUTEX_UNLOCK` and the assertion behind it. -/
def unlock (m : MutexId) : LinkM Unit := inWorld do
  let rv ← mutexUnlock m
  ASSERT (rv == 0) "thread failed to release mutex"

section Locks

variable {m : MutexId} {l : Link} {Q : Unit → Link → Prop} {R : Fault → Link → Prop}

@[simp] theorem ends_lock :
    Ends (lock m) l Q R ↔ if l.held m then R (.assertFailed "thread failed to own mutex") l
      else Q () { l with held := Function.update l.held m true } := by
  cases h : l.held m <;> simp [lock, h, EDEADLK]

@[simp] theorem ends_unlock :
    Ends (unlock m) l Q R ↔ if l.held m then Q () { l with held := Function.update l.held m false }
      else R (.assertFailed "thread failed to release mutex") l := by
  cases h : l.held m <;> simp [unlock, h, EPERM]

theorem update_free {held : MutexId → Bool} (h : held m = false) :
    Function.update (Function.update held m true) m false = held := by
  rw [Function.update_idem, ← h, Function.update_eq_self]

theorem update_held {held : MutexId → Bool} (h : held m = true) :
    Function.update (Function.update held m false) m true = held := by
  rw [Function.update_idem, ← h, Function.update_eq_self]

end Locks

/-! ## The callbacks of the send queue -/

def sendReqCallback (cbp : CbParam) (cev : EventId) : VecState → RecvM Unit
  | .DONE => modifyEvent cev fun e => { e with status := CommEvent.SUCCESS }
  | state => do
    removeEventEntry cbp.reqId
    let evst := if state = .CLEANUP then CommEvent.STAGE_CLEANUP else CommEvent.SEND_FAILURE
    if cbp.eventDone then pure () else completeEvent cev evst

def sendRspCallback (cev : EventId) (state : VecState) : RecvM Unit := do
  let e ← getEvent cev
  ASSERT e.serverGen "bad CommEvent pointer"
  match state with
  | .DONE => call (.done cev)
  | .CLEANUP => completeEvent cev CommEvent.STAGE_CLEANUP
  | .ERROR => completeEvent cev CommEvent.SEND_FAILURE

/-- `sendCallback`; a parameter without an event is a null pointer that is followed. -/
def sendCallback (v : SendVec) (state : VecState) : LinkM Unit :=
  match v.cbParam with
  | none => pure ()
  | some cbp => do
    let (bytes, state) := sendCallbackFile files v.cbParam state
    modify fun l => { l with sent := l.sent ++ bytes }
    match cbp.cev with
    | none => throw .undefined
    | some cev => inWorld do
      let e ← getEvent cev
      if e.serverGen then sendRspCallback cev state else sendReqCallback cbp cev state

/-! ## Teardown -/

/-- `connCallback(ON_DISCONNECT)`. -/
def onDisconnect : LinkM Unit := do
  lock .mEventMapMutex
  let l ← get
  l.mSendEventMap.forM fun (_, cev) => inWorld (completeEvent cev CommEvent.CONN_FAILURE)
  modify fun l => { l with mSendEventMap := [] }
  unlock .mEventMapMutex
  modify fun l => { l with mRecvCb := {} }

/-- `while (!mRecvQ.empty())` of `cleanup`; the callbacks entered here post nothing. -/
def cleanupRecvQ (how : CleanupT) : List IoVec → LinkM Unit
  | [] => pure ()
  | v :: q => do
    let _ ← inWorld (recvCallback env v how.vecState)
    modify fun l => { l with mRecvQ := q }
    cleanupRecvQ how q

def cleanupSendQ (how : CleanupT) : List SendVec → LinkM Unit
  | [] => pure ()
  | v :: q => do
    sendCallback files v how.vecState
    modify fun l => { l with mSendQ := q }
    cleanupSendQ how q

/-- `Conn::~Conn`. -/
def deleteConn : LinkM Unit := do
  let l ← get
  inWorld (ASSERT l.mCurSendBlock.isNone "mCurSendBlock is not 0")
  inWorld (ASSERT l.mCurRecvBlock.isNone "mCurRecvBlock is not 0")
  inWorld (ASSERT (l.mRefCount == 0) "connection mMsgCounter not 0")
  set { l with deleted := true }

def flushRecv (how : CleanupT) : LinkM Unit := do
  lock .mRecvMutex
  let l ← get
  cleanupRecvQ env how l.mRecvQ
  l.mCurRecvBlock.forM fun v => do
    let _ ← inWorld (recvCallback env v how.vecState)
  modify fun l => { l with mCurRecvBlock := none }
  unlock .mRecvMutex

def flushSend (how : CleanupT) : LinkM Unit := do
  lock .mSendMutex
  let l ← get
  cleanupSendQ files how l.mSendQ
  l.mCurSendBlock.forM fun v => sendCallback files v how.vecState
  modify fun l => { l with mCurSendBlock := none }
  unlock .mSendMutex

/-- `Conn::cleanup` from where nobody else uses the connection. -/
def teardown (how : CleanupT) : LinkM Unit := do
  flushRecv env how
  flushSend files how
  onDisconnect
  modify fun l => { l with mSock := -1 }
  deleteConn

def cleanup (how : CleanupT) : LinkM ConnStatus := do
  lock .mMutex
  modify fun l => { l with mCleaning := true }
  let l ← get
  if l.mRefCount > 0 then do
    modify fun l => { l with mCleanType := how }
    unlock .mMutex
    pure .CONN_ERR_BUSY
  else do
    unlock .mMutex
    teardown env files how
    pure .SUCCESS

/-! ## References and the map -/

def acquire : LinkM Unit := do
  lock .mMutex
  modify fun l => { l with mRefCount := l.mRefCount + 1 }
  unlock .mMutex

def release : LinkM Unit := do
  lock .mMutex
  modify fun l => { l with mRefCount := l.mRefCount - 1 }
  let l ← get
  let callCleanup := l.mRefCount == 0 && l.mCleaning
  unlock .mMutex
  if callCleanup then do
    let _ ← cleanup env files l.mCleanType
    pure ()
  else pure ()

/-- `ConnMgr::find` for the socket of the connection. -/
def find : LinkM Bool := do
  let l ← get
  if l.inMap then do
    acquire
    pure true
  else pure false

/-- `ConnMgr::remove` for the socket of the connection. -/
def remove : LinkM Unit := do
  let l ← get
  if l.inMap then do
    let _ ← cleanup env files .ON_ERROR
    modify fun l => { l with inMap := false }
  else pure ()

end Longda
