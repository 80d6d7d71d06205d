import Longda.Lib.Loop
import Longda.Net.Cleanup

/-!
# The receive thread on a connection

`recvData` is what a receive thread does when the socket has bytes: it looks the connection up,
lets `recvProgress` fill one vector after another from the socket, and removes the connection where
that reports it broken or throws. `Kernel` says how the socket will answer `::recv`.
-/

namespace Longda

open Lib

/-- What `::recv` says of a socket without bytes. -/
inductive SockEnd where
  | again
  | closed
  | failed
  deriving DecidableEq, Repr

structure Kernel where
  /-- How many bytes beyond the first the so-manieth call of `::recv` gives at most. -/
  chunk : ℕ → ℕ
  atEnd : SockEnd
  files : Files

/-- What a call of `::recv` gives. -/
inductive Received where
  | bytes (data : List UInt8)
  | none (atEnd : SockEnd)

/-- Bytes received into a vector behind those it has. -/
def IoVec.receive (v : IoVec) (data : List UInt8) : IoVec :=
  { v with base := v.base.take v.xferred ++ data, xferred := v.xferred + data.length }

variable (env : Env) (k : Kernel)

def sockRecv (remain : ℕ) : LinkM Received := do
  let l ← get
  if l.unread = [] then pure (.none k.atEnd)
  else do
    let n := min (k.chunk l.recvs + 1) remain
    set { l with recvs := l.recvs + 1, unread := l.unread.drop n }
    pure (.bytes (l.unread.take n))

/-- `while (!mCurRecvBlock->done())`; each turn but the last receives a byte or more, so there are
no more turns than bytes the vector waits for. -/
def recvLoop : ℕ → IoVec → Received → LinkM (IoVec × Received)
  | 0, v, nr => pure (v, nr)
  | turns + 1, v, nr =>
    if v.done then pure (v, nr)
    else do
      lock .mMutex
      let l ← get
      let toRecv := !l.mCleaning
      unlock .mMutex
      let nr ← if toRecv then sockRecv k v.remain else pure (.none .closed)
      match nr with
      | .bytes data => recvLoop turns (v.receive data) nr
      | .none _ => pure (v, nr)

/-- The vector is given to its callback. -/
def completeVec (v : IoVec) (vs : VecState) (rc : ConnStatus) : LinkM ConnStatus := do
  modify fun l => { l with mCurRecvBlock := none }
  let _ ← inWorld (recvCallback env v vs)
  pure rc

def recvvecProgress : LinkM ConnStatus := do
  let l ← get
  match l.mCurRecvBlock with
  | none => pure .CONN_ERR_NOVEC
  | some v =>
    if l.mReadyRecv then do
      let (v, nr) ← recvLoop k v.remain v (.none .closed)
      modify fun l => { l with mCurRecvBlock := some v }
      if v.done then completeVec env v .DONE .SUCCESS
      else match nr with
        | .none .again => do
          modify fun l => { l with mReadyRecv := false }
          pure .CONN_ERR_UNAVAIL
        | _ => completeVec env v .ERROR .CONN_ERR_BROKEN
    else pure .CONN_ERR_UNAVAIL

/-- What `recvProgress` returns behind its loop. -/
def progressStatus : LinkM ConnStatus := do
  let l ← get
  pure (if l.mReadyRecv && l.mCurRecvBlock.isSome then .CONN_READY else .SUCCESS)

/-- One turn of the loop of `recvProgress`, with what it returns where it leaves the loop. -/
def recvTurn (ready : Bool) : LinkM (Option ConnStatus) := do
  lock .mRecvMutex
  let l ← get
  let rc ← if l.mReadyRecv || ready then do
      modify fun l => { l with mReadyRecv := true }
      recvvecProgress env k
    else pure .CONN_ERR_UNAVAIL
  if rc = .CONN_ERR_BROKEN then do
    unlock .mRecvMutex
    pure (some rc)
  else if rc = .CONN_ERR_UNAVAIL then do
    unlock .mRecvMutex
    some <$> progressStatus
  else do
    let l ← get
    match l.mRecvQ with
    | v :: q => do
      inWorld (ASSERT l.mCurRecvBlock.isNone "mCurRecvBlock not set to 0")
      modify fun l => { l with mCurRecvBlock := some v, mRecvQ := q }
      unlock .mRecvMutex
      pure none
    | [] => do
      unlock .mRecvMutex
      some <$> progressStatus

def recvProgress (ready : Bool) : ℕ → LinkM (Option ConnStatus) := repeatM (recvTurn env k ready)

/-- `catch (...)` around `recvProgress`: what is thrown is caught, a process that aborts is not. -/
def isThrown : Fault → Bool
  | .badAlloc => true
  | _ => false

/-- What `recvData` does with the outcome; there is none where the turns to spare ran out. -/
def recvDone : Option ConnStatus → LinkM (Option Unit)
  | none => pure none
  | some .CONN_ERR_BROKEN => do
    release env k.files
    let _ ← inWorld (mutexLock .mapMutex)
    remove env k.files
    let _ ← inWorld (mutexUnlock .mapMutex)
    pure (some ())
  | some _ => do
    release env k.files
    pure (some ())

def recvData (turns : ℕ) : LinkM (Option Unit) := do
  let _ ← inWorld (mutexLock .mapMutex)
  let found ← find
  let _ ← inWorld (mutexUnlock .mapMutex)
  if found then do
    let crc ← catchAs isThrown (some .CONN_ERR_BROKEN) (recvProgress env k true turns)
    recvDone env k crc
  else pure (some ())

end Longda
