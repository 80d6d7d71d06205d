import Longda.Lib.Machine
import Longda.Net.Cleanup

/-!
# One connection under its senders

`Sending` is what the senders of a connection share: the queue and the current vector under
`mSendMutex`, the flag `mReadyToSend`, and what the kernel and the epoll thread do meanwhile. Any
number of calls of `sendProgress` run at a time; those that wait for the mutex are only counted,
and the one that has it is at a `Stage`. A step is what happens between two points where another
thread can interfere: with the flag, with `mCleaning`, or on the socket.

A connection is deleted when nobody uses it (`torn_down_once`), so `cleanup` flushes the queue
with no call of `sendProgress` and no epoll thread about. `SendMove` says once what each step does.
-/

namespace Longda

open Lib

/-- A vector as it is posted: its buffer is full, nothing of it is transferred, and its event is
not done. -/
structure FreshVec extends SendVec where
  filled : base.length = size
  fresh : xferred = 0
  pending : ∀ cbp, cbParam = some cbp → cbp.eventDone = false

/-- A vector with its place in posting order and the batch it was posted in. -/
structure Posted where
  pos : ℕ
  batch : ℕ
  vec : SendVec

namespace Posted

def incXferred (n : ℕ) (p : Posted) : Posted :=
  { p with vec := { p.vec with xferred := p.vec.xferred + n } }

/-- The vector as it was posted. -/
def unsent (p : Posted) : Posted := { p with vec := { p.vec with xferred := 0 } }

/-- What the kernel takes when it accepts `n` bytes from `curPtr`. -/
def taken (n : ℕ) (p : Posted) : List UInt8 := (p.vec.base.drop p.vec.xferred).take n

end Posted

/-- Where the holder of `mSendMutex` is. -/
inductive Stage where
  | locked
  /-- At the condition of the loop of `sendvecProgress`. -/
  | loop
  /-- About to call `send`. -/
  | send
  /-- Behind an `EAGAIN`, about to clear `mReadyToSend`. -/
  | full
  | complete (vs : VecState)
  | callback (vs : VecState)
  /-- About to look into `mSendQ`. -/
  | next
  /-- About to unlock and go round. -/
  | again
  /-- About to unlock and return. -/
  | leave
  deriving DecidableEq

/-- Where the epoll thread is with the edge it took. -/
inductive Waker where
  | idle
  /-- About to call `setReadyToSend`. -/
  | setReady
  /-- About to put the socket into the queue of the send thread. -/
  | push
  deriving DecidableEq

/-- Bytes put on the socket for a vector: from its buffer, or from the file of its parameter. -/
structure Chunk where
  pos : ℕ
  file : Bool
  bytes : List UInt8

/-- An invocation of `sendCallback`, and the state it goes on with behind the file. -/
structure Invocation where
  item : Posted
  state : VecState
  final : VecState

structure Sending where
  mCurSendBlock : Option Posted := none
  mSendQ : List Posted := []
  mReadyToSend : Bool := false
  mCleaning : Bool := false
  /-- How often the socket is in `sockQ` of its send thread. -/
  sockQ : ℕ := 0
  /-- The calls of `sendProgress` that do not have `mSendMutex`. -/
  waiting : ℕ := 0
  holder : Option Stage := none
  waker : Waker := .idle
  writable : Bool := false
  /-- Whether `epoll_wait` has an edge to report. -/
  edge : Bool := false
  deleted : Bool := false
  posted : List Posted := []
  batches : ℕ := 0
  chunks : List Chunk := []
  invoked : List Invocation := []
  /-- The vectors that `send` reported an error for. -/
  broken : List Posted := []
  /-- Whether a vector was completed with `ERROR` or a file not sent. -/
  failed : Bool := false

inductive SendStep where
  | postSend (vecs : List FreshVec)
  | prepareSend
  | sendData
  | sendProgress
  | lock
  | test
  | loop
  | sent (n : ℕ)
  | eagain
  | error
  | clearReady
  /-- The callback, with what `sendfile` answers it. -/
  | complete (answers : List (Option ℕ))
  | endCallback
  | next
  | unlock
  | setCleaning
  | cleanup (how : CleanupT)
  | socketFull
  | socketWritable
  | epollWait
  | setReadyToSend
  | pushSock

namespace Sock

/-- The loop of `Sock::sendfile` on what the kernel answers: the count it transmitted, or an
error, which the loop takes for the count -1. -/
def sendfileAnswered (file : ℕ → UInt8) : ℕ → ℕ → List (Option ℕ) → Option (List UInt8)
  | _, remain, [] => if remain = 0 then some [] else none
  | sendOffset, remain, none :: answers =>
    if remain = 0 then none else sendfileAnswered file sendOffset ((remain + 1) % 2 ^ 64) answers
  | sendOffset, remain, some n :: answers =>
    if remain = 0 ∨ min remain ONE_GIGA < n then none
    else (sendfileAnswered file (sendOffset + n) (remain - n) answers).map
      (fileSlice file sendOffset n ++ ·)

end Sock

/-- The file part of `sendCallback` on what the kernel answers: the bytes on the socket, the state
it goes on with, and whether anything failed. -/
def sendCallbackAnswered (files : Files) (cbParam : Option CbParam) (state : VecState)
    (answers : List (Option ℕ)) : Option (List UInt8 × VecState × Bool) :=
  match cbParam with
  | none => some ([], state, false)
  | some cbp =>
    if state = .DONE ∧ cbp.fileLen ≠ 0 then
      match files cbp.filePath with
      | none => some ([], .ERROR, true)
      | some file =>
        (Sock.sendfileAnswered file cbp.fileOffset.toNat cbp.fileLen.toNat answers).map
          fun bytes => (bytes, state, none ∈ answers)
    else some ([], state, false)

namespace Sending

def atStage (s : Sending) (stage : Stage) : Sending := { s with holder := some stage }

/-- The vectors of a batch with their places. -/
def number (s : Sending) (vecs : List FreshVec) : List Posted :=
  (vecs.zipIdx s.posted.length).map fun (v, i) => ⟨i, s.batches, v.toSendVec⟩

/-- `mSendMutex` is free, or its holder is in a callback and locks it again in vain. -/
def canPost (s : Sending) : Bool :=
  match s.holder with
  | none => true
  | some (.callback _) => true
  | _ => false

def postSend (s : Sending) (vecs : List FreshVec) : Sending :=
  { s with
    mSendQ := s.mSendQ ++ s.number vecs
    posted := s.posted ++ s.number vecs
    batches := s.batches + 1 }

/-- The vectors that `cleanup` calls back: the queue, then the current one. -/
def flushed (s : Sending) : List Posted := s.mSendQ ++ s.mCurSendBlock.toList

/-- What the holder does first, and where it reads the flag: nobody else clears it. -/
def test (s : Sending) : Sending :=
  if s.mReadyToSend then
    match s.mCurSendBlock with
    | none => s.atStage .next
    | some _ => s.atStage .loop
  else s.atStage .leave

def loop (s : Sending) (p : Posted) : Sending :=
  if p.vec.done then s.atStage (.complete .DONE)
  else if s.mCleaning then s.atStage (.complete .ERROR)
  else s.atStage .send

def accept (s : Sending) (p : Posted) (n : ℕ) : Sending :=
  { s.atStage .loop with
    mCurSendBlock := some (p.incXferred n)
    chunks := s.chunks ++ [⟨p.pos, false, p.taken n⟩] }

def invoke (s : Sending) (p : Posted) (vs : VecState) (bytes : List UInt8) (final : VecState)
    (err : Bool) : Sending :=
  { s.atStage (.callback vs) with
    mCurSendBlock := none
    chunks := s.chunks ++ [⟨p.pos, true, bytes⟩]
    invoked := s.invoked ++ [⟨p, vs, final⟩]
    failed := s.failed || err || vs != .DONE }

def next (s : Sending) : Sending :=
  match s.mSendQ with
  | [] => s.atStage .leave
  | p :: q => { s.atStage .again with mCurSendBlock := some p, mSendQ := q }

def cleanup (s : Sending) (how : CleanupT) : Sending :=
  { s with
    mSendQ := []
    mCurSendBlock := none
    invoked := s.invoked ++ s.flushed.map fun p => ⟨p, how.vecState, how.vecState⟩
    deleted := true }

/-- Everyone who uses the connection has left. -/
def unused (s : Sending) : Bool := s.waiting = 0 && s.holder.isNone && s.waker = .idle

def step (files : Files) (s : Sending) : SendStep → Option Sending
  | .postSend vecs => if s.canPost then some (s.postSend vecs) else none
  | .prepareSend => some { s with sockQ := s.sockQ + 1 }
  -- a connection in cleanup is not in the map any more
  | .sendData =>
    if 0 < s.sockQ then
      some { s with
        sockQ := s.sockQ - 1
        waiting := if s.mCleaning then s.waiting else s.waiting + 1 }
    else none
  | .sendProgress => some { s with waiting := s.waiting + 1 }
  | .lock =>
    if s.holder = none ∧ 0 < s.waiting then
      some { s.atStage .locked with waiting := s.waiting - 1 }
    else none
  | .test => if s.holder = some .locked then some s.test else none
  | .loop => if s.holder = some .loop then s.mCurSendBlock.map s.loop else none
  | .sent n =>
    if s.holder = some .send then
      s.mCurSendBlock.bind fun p => if 0 < n ∧ n ≤ p.vec.remain then some (s.accept p n) else none
    else none
  -- the kernel refuses only where the socket is full
  | .eagain =>
    if s.holder = some .send ∧ s.writable = false then some (s.atStage .full) else none
  | .error =>
    if s.holder = some .send then
      s.mCurSendBlock.map fun p =>
        { s.atStage (.complete .ERROR) with broken := s.broken ++ [p] }
    else none
  | .clearReady =>
    if s.holder = some .full then some { s.atStage .leave with mReadyToSend := false } else none
  | .complete answers =>
    match s.holder, s.mCurSendBlock with
    | some (.complete vs), some p =>
      (sendCallbackAnswered files p.vec.cbParam vs answers).map fun (bytes, final, err) =>
        s.invoke p vs bytes final err
    | _, _ => none
  | .endCallback =>
    match s.holder with
    | some (.callback vs) => some (s.atStage (if vs = .DONE then .next else .leave))
    | _ => none
  | .next => if s.holder = some .next then some s.next else none
  | .unlock =>
    match s.holder with
    | some .again => some { s with holder := none, waiting := s.waiting + 1 }
    | some .leave => some { s with holder := none }
    | _ => none
  | .setCleaning => some { s with mCleaning := true }
  | .cleanup how => if s.mCleaning ∧ s.unused then some (s.cleanup how) else none
  | .socketFull => some { s with writable := false }
  | .socketWritable => some { s with writable := true, edge := true }
  | .epollWait =>
    if s.edge ∧ s.waker = .idle then
      some { s with edge := false, waker := if s.mCleaning then .idle else .setReady }
    else none
  | .setReadyToSend =>
    if s.waker = .setReady then some { s with mReadyToSend := true, waker := .push } else none
  | .pushSock =>
    if s.waker = .push then some { s with sockQ := s.sockQ + 1, waker := .idle } else none

end Sending

/-- The connection until it is deleted. -/
def sending (files : Files) : Machine Sending SendStep where
  step s l := if s.deleted then none else s.step files l

/-- What each step does to a connection that is not deleted, and when it can be taken. -/
inductive SendMove (files : Files) (s : Sending) : SendStep → Sending → Prop
  | postSend (vecs : List FreshVec) (hpost : s.canPost) :
    SendMove files s (.postSend vecs) (s.postSend vecs)
  | prepareSend : SendMove files s .prepareSend { s with sockQ := s.sockQ + 1 }
  | sendData (hq : 0 < s.sockQ) : SendMove files s .sendData { s with
      sockQ := s.sockQ - 1, waiting := if s.mCleaning then s.waiting else s.waiting + 1 }
  | sendProgress : SendMove files s .sendProgress { s with waiting := s.waiting + 1 }
  | lock (hholder : s.holder = none) (hwait : 0 < s.waiting) :
    SendMove files s .lock { s.atStage .locked with waiting := s.waiting - 1 }
  | unready (hholder : s.holder = some .locked) (hflag : s.mReadyToSend = false) :
    SendMove files s .test (s.atStage .leave)
  | noVec (hholder : s.holder = some .locked) (hflag : s.mReadyToSend = true)
    (hcur : s.mCurSendBlock = none) : SendMove files s .test (s.atStage .next)
  | enter {p : Posted} (hholder : s.holder = some .locked) (hflag : s.mReadyToSend = true)
    (hcur : s.mCurSendBlock = some p) : SendMove files s .test (s.atStage .loop)
  | done {p : Posted} (hholder : s.holder = some .loop) (hcur : s.mCurSendBlock = some p)
    (hdone : p.vec.done) : SendMove files s .loop (s.atStage (.complete .DONE))
  | refuse {p : Posted} (hholder : s.holder = some .loop) (hcur : s.mCurSendBlock = some p)
    (hdone : ¬ p.vec.done) (hclean : s.mCleaning = true) :
    SendMove files s .loop (s.atStage (.complete .ERROR))
  | attempt {p : Posted} (hholder : s.holder = some .loop) (hcur : s.mCurSendBlock = some p)
    (hdone : ¬ p.vec.done) (hclean : s.mCleaning = false) :
    SendMove files s .loop (s.atStage .send)
  | sent {p : Posted} (n : ℕ) (hholder : s.holder = some .send) (hcur : s.mCurSendBlock = some p)
    (hpos : 0 < n) (hle : n ≤ p.vec.remain) : SendMove files s (.sent n) (s.accept p n)
  | eagain (hholder : s.holder = some .send) (hfull : s.writable = false) :
    SendMove files s .eagain (s.atStage .full)
  | error {p : Posted} (hholder : s.holder = some .send) (hcur : s.mCurSendBlock = some p) :
    SendMove files s .error
      { s.atStage (.complete .ERROR) with broken := s.broken ++ [p] }
  | clearReady (hholder : s.holder = some .full) :
    SendMove files s .clearReady { s.atStage .leave with mReadyToSend := false }
  | complete {p : Posted} {vs final : VecState} {bytes : List UInt8} {err : Bool}
    (answers : List (Option ℕ)) (hholder : s.holder = some (.complete vs))
    (hcur : s.mCurSendBlock = some p)
    (hfile : sendCallbackAnswered files p.vec.cbParam vs answers = some (bytes, final, err)) :
    SendMove files s (.complete answers) (s.invoke p vs bytes final err)
  | endCallback {vs : VecState} (hholder : s.holder = some (.callback vs)) :
    SendMove files s .endCallback (s.atStage (if vs = .DONE then .next else .leave))
  | empty (hholder : s.holder = some .next) (hq : s.mSendQ = []) :
    SendMove files s .next (s.atStage .leave)
  | take {p : Posted} {q : List Posted} (hholder : s.holder = some .next) (hq : s.mSendQ = p :: q) :
    SendMove files s .next { s.atStage .again with mCurSendBlock := some p, mSendQ := q }
  | goRound (hholder : s.holder = some .again) :
    SendMove files s .unlock { s with holder := none, waiting := s.waiting + 1 }
  | goOut (hholder : s.holder = some .leave) :
    SendMove files s .unlock { s with holder := none }
  | setCleaning : SendMove files s .setCleaning { s with mCleaning := true }
  | cleanup (how : CleanupT) (hclean : s.mCleaning = true) (hunused : s.unused) :
    SendMove files s (.cleanup how) (s.cleanup how)
  | socketFull : SendMove files s .socketFull { s with writable := false }
  | socketWritable :
    SendMove files s .socketWritable { s with writable := true, edge := true }
  | epollWait (hedge : s.edge = true) (hwaker : s.waker = .idle) :
    SendMove files s .epollWait
      { s with edge := false, waker := if s.mCleaning then .idle else .setReady }
  | setReadyToSend (hwaker : s.waker = .setReady) :
    SendMove files s .setReadyToSend { s with mReadyToSend := true, waker := .push }
  | pushSock (hwaker : s.waker = .push) :
    SendMove files s .pushSock { s with sockQ := s.sockQ + 1, waker := .idle }

theorem sending_alive {files : Files} {s t : Sending} {l : SendStep}
    (h : (sending files).step s l = some t) : s.deleted = false := by
  rcases hd : s.deleted with _ | _
  · rfl
  · simp [sending, hd] at h

theorem sendMove_of_step {files : Files} {s t : Sending} {l : SendStep}
    (h : (sending files).step s l = some t) : SendMove files s l t := by
  simp only [sending, sending_alive h, Bool.false_eq_true, if_false] at h
  cases l <;> simp only [Sending.step] at h
  case postSend vecs =>
    split_ifs at h with hp
    cases h
    exact .postSend vecs hp
  case prepareSend => cases h; exact .prepareSend
  case sendData =>
    split at h
    · cases h
      exact .sendData ‹_›
    · cases h
  case sendProgress => cases h; exact .sendProgress
  case lock =>
    split_ifs at h with hc
    cases h
    exact .lock hc.1 hc.2
  case test =>
    split_ifs at h with hs
    cases h
    unfold Sending.test
    split_ifs with hf
    · split
      · exact .noVec hs hf ‹_›
      · exact .enter hs hf ‹_›
    · exact .unready hs (by simpa using hf)
  case loop =>
    split_ifs at h with hs
    obtain ⟨p, hp, rfl⟩ := Option.map_eq_some_iff.1 h
    unfold Sending.loop
    split_ifs with hd hc
    · exact .done hs hp hd
    · exact .refuse hs hp hd hc
    · exact .attempt hs hp hd (by simpa using hc)
  case sent n =>
    split_ifs at h with hs
    obtain ⟨p, hp, h⟩ := Option.bind_eq_some_iff.1 h
    split_ifs at h with hn
    cases h
    exact .sent n hs hp hn.1 hn.2
  case eagain =>
    split_ifs at h with hc
    cases h
    exact .eagain hc.1 hc.2
  case error =>
    split_ifs at h with hs
    obtain ⟨p, hp, rfl⟩ := Option.map_eq_some_iff.1 h
    exact .error hs hp
  case clearReady =>
    split_ifs at h with hs
    cases h
    exact .clearReady hs
  case complete answers =>
    split at h
    · obtain ⟨⟨bytes, final, err⟩, hf, rfl⟩ := Option.map_eq_some_iff.1 h
      exact .complete answers ‹_› ‹_› hf
    · cases h
  case endCallback =>
    split at h
    · cases h
      exact .endCallback ‹_›
    · cases h
  case next =>
    split_ifs at h with hs
    cases h
    unfold Sending.next
    split
    · exact .empty hs ‹_›
    · exact .take hs ‹_›
  case unlock =>
    split at h <;> cases h
    · exact .goRound ‹_›
    · exact .goOut ‹_›
  case setCleaning => cases h; exact .setCleaning
  case cleanup how =>
    split_ifs at h with hc
    cases h
    exact .cleanup how hc.1 hc.2
  case socketFull => cases h; exact .socketFull
  case socketWritable => cases h; exact .socketWritable
  case epollWait =>
    by_cases hc : s.edge = true ∧ s.waker = .idle
    · rw [if_pos hc] at h
      cases h
      exact .epollWait hc.1 hc.2
    · rw [if_neg hc] at h
      cases h
  case setReadyToSend =>
    split_ifs at h with hw
    cases h
    exact .setReadyToSend hw
  case pushSock =>
    split_ifs at h with hw
    cases h
    exact .pushSock hw

/-- A vector of one byte. -/
def oneByte : FreshVec where
  base := [1]
  size := 1
  alloc := .USER_ALLOC
  filled := rfl
  fresh := IoVec.ofVec_xferred ⟨[1], 1⟩ .USER_ALLOC
  pending := fun _ h => by cases h

/-- A vector of one byte with a file of one byte behind it. -/
def withFile : FreshVec where
  base := [1]
  size := 1
  alloc := .SYS_ALLOC
  cbParam := some { cev := some 0, fileLen := 1 }
  filled := rfl
  fresh := IoVec.ofVec_xferred ⟨[1], 1⟩ .SYS_ALLOC
  pending := fun _ h => by cases h; rfl

end Longda
