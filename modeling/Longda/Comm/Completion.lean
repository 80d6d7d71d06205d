import Longda.Comm.Matching
import Longda.Lib.HandBack
import Longda.Net.Cleanup

/-!
# Who completes an event

`Requests` is what a connection has of the events sent on it: those in its map, the vectors of its
send queue, the event the receive thread has taken out of the map, and those a thread is about to
complete. A step is what a thread does between two points where another can interfere, so a callback
is several steps; undisturbed they are the callback of the source (`recvRspMsg_steps`,
`sendReqCallback_steps`). The log has each use of an event, or of a buffer it owns, and each
completion.

`eventDone` waits while the event is `PENDING`, to let the last send callback come first, but
`recvRspMsg` has overwritten `PENDING` by then. Where a response does not overtake that callback,
and nothing cuts the reception of one short, each event is completed once and not used behind it
(`completed_once`).
-/

namespace Longda

open Lib

/-- An event with the number of its request. -/
abbrev Entry := UInt32 × EventId

/-- A vector of a request: whether its buffer is an attachment of the event, and whether the
callback parameter is on it. -/
structure ReqVec where
  entry : Entry
  attach : Bool
  last : Bool
  deriving DecidableEq

/-- The vectors of a request with so many attachments. -/
def ReqVec.batch (e : Entry) (attachs : ℕ) : List ReqVec :=
  ⟨e, false, attachs = 0⟩ :: (List.range attachs).map fun i => ⟨e, true, i + 1 = attachs⟩

/-- Where the receive thread is with the event of its parameter. -/
inductive RspStage where
  | idle
  /-- `recvRspMsg` behind `getAndRmEvent`. -/
  | found (mId : UInt64) (mStatus : Int32)
  /-- About to post the vectors of the next part. -/
  | prepare
  /-- In `checkEventReady`. -/
  | ready
  /-- `recvErrCb` behind `removeEventEntry`. -/
  | failed
  deriving DecidableEq

inductive ConnPhase where
  | up
  /-- In `cleanup`, and nobody else uses the connection. -/
  | tearing
  | deleted
  deriving DecidableEq

structure Requests where
  mSendEventMap : EventMap := []
  events : EventId → CommEvent := fun _ => {}
  nextEvent : EventId := 0
  /-- The requests entered whose vectors are not posted yet. -/
  entered : List Entry := []
  /-- The requests `cleanupFailedReq` has taken out of the map. -/
  failedReqs : List Entry := []
  mCurSendBlock : Option ReqVec := none
  mSendQ : List ReqVec := []
  /-- The request `sendReqCallback` is entered for. -/
  calling : Option (Entry × VecState) := none
  /-- The request it has taken out of the map. -/
  removed : Option (Entry × VecState) := none
  /-- The event and the number in the parameter of the receive vectors. -/
  cev : Option Entry := none
  /-- The parts announced behind the message. -/
  attachs : ℕ := 0
  file : Bool := false
  rspStage : RspStage := .idle
  /-- The posted vectors, each with the event whose attachment it is. -/
  mRecvQ : List (Option EventId) := [none]
  /-- A receive vector has completed with `ERROR` or `CLEANUP`. -/
  recvFailed : Bool := false
  phase : ConnPhase := .up
  log : List (Act EventId) := []

inductive RequestStep where
  /-- `sendRequest` that completes the event before it has a connection. -/
  | refuse (id : UInt32) (request response : MsgDesc Message) (stev : Int32)
  | addEventEntry (id : UInt32) (request response : MsgDesc Message)
  | cleanupFailedReq (e : Entry)
  | completeFailedReq (e : Entry)
  | postSend (e : Entry) (attachs : ℕ)
  | nextVec
  /-- `::send` takes bytes from the current vector. -/
  | sent
  | sendCallback (state : VecState)
  | sendReqCallback
  | completeRemoved
  /-- `::recv` puts bytes into the front vector. -/
  | received
  /-- A callback that is not about a response and posts so many vectors. -/
  | recvOther (vecs : ℕ)
  | getAndRmEvent (mId : UInt64) (mStatus : Int32) (attachs : ℕ) (file : Bool)
  | takeResponse
  | prepare
  | badAlloc
  | recvAttach
  | recvFile (written last : Bool)
  | eventDone
  | recvErrCb
  | completeErr
  | cleanup
  | cleanupVec (how : CleanupT)
  | onDisconnect

namespace Requests

def use (s : Requests) (ev : EventId) : Requests := { s with log := s.log ++ [.use ev] }

def setEvent (s : Requests) (ev : EventId) (f : CommEvent → CommEvent) : Requests :=
  { s.use ev with events := Function.update s.events ev (f (s.events ev)) }

def completeEvent (s : Requests) (ev : EventId) (stev : Int32) : Requests :=
  { s with
    events := Function.update s.events ev { s.events ev with status := stev }
    log := s.log ++ [.handBack ev] }

def removeEventEntry (s : Requests) (id : UInt32) : Requests :=
  { s with mSendEventMap := s.mSendEventMap.removeEntry id }

/-- `sendRequest` sets its event `PENDING` and gives it the number. -/
def newRequest (s : Requests) (id : UInt32) (request response : MsgDesc Message) : Requests :=
  { s.use s.nextEvent with
    events := Function.update s.events s.nextEvent
      { status := CommEvent.PENDING, requestId := id, request := request, response := response }
    nextEvent := s.nextEvent + 1 }

/-- No send callback is running. -/
def sendIdle (s : Requests) : Bool := s.calling.isNone && s.removed.isNone

/-- The vector `cleanup` calls back next: the queue goes before the current one. -/
def flushNext (s : Requests) : Option (ReqVec × Requests) :=
  match s.mSendQ, s.mCurSendBlock with
  | v :: q, _ => some (v, { s with mSendQ := q })
  | [], some v => some (v, { s with mCurSendBlock := none })
  | [], none => none

/-- `sendCallback` looks at the event if the parameter is on the vector. -/
def sendCallback (s : Requests) (v : ReqVec) (state : VecState) : Requests :=
  if v.last then { s.use v.entry.2 with calling := some (v.entry, state) } else s

/-- The status `sendReqCallback` completes with. -/
def evst (state : VecState) : Int32 :=
  if state = .CLEANUP then CommEvent.STAGE_CLEANUP else CommEvent.SEND_FAILURE

def step (s : Requests) : RequestStep → Option Requests
  | .refuse id request response stev =>
    some ((s.newRequest id request response).completeEvent s.nextEvent stev)
  | .addEventEntry id request response =>
    if s.phase = .up then some { s.newRequest id request response with
      mSendEventMap := s.mSendEventMap.addEntry id s.nextEvent
      entered := (id, s.nextEvent) :: s.entered }
    else none
  | .cleanupFailedReq e =>
    if e ∈ s.entered then some { (s.use e.2).removeEventEntry e.1 with
      entered := s.entered.erase e, failedReqs := e :: s.failedReqs }
    else none
  | .completeFailedReq e =>
    if e ∈ s.failedReqs then some { s.completeEvent e.2 CommEvent.RESOURCE_FAILURE with
      failedReqs := s.failedReqs.erase e }
    else none
  | .postSend e attachs =>
    if e ∈ s.entered then some { s.use e.2 with
      entered := s.entered.erase e, mSendQ := s.mSendQ ++ ReqVec.batch e attachs }
    else none
  | .nextVec =>
    match s.mCurSendBlock, s.mSendQ with
    | none, v :: q =>
      if s.phase = .up ∧ s.sendIdle then some { s with mCurSendBlock := some v, mSendQ := q }
      else none
    | _, _ => none
  | .sent =>
    match s.mCurSendBlock with
    | some v => if s.phase = .up then some (if v.attach then s.use v.entry.2 else s) else none
    | none => none
  | .sendCallback state =>
    match s.mCurSendBlock with
    | some v =>
      if s.phase = .up ∧ s.sendIdle then
        some ({ s with mCurSendBlock := none }.sendCallback v state)
      else none
    | none => none
  | .sendReqCallback =>
    match s.calling with
    | some (e, .DONE) =>
      some { s.setEvent e.2 fun c => { c with status := CommEvent.SUCCESS } with calling := none }
    | some (e, state) =>
      some { s.removeEventEntry e.1 with calling := none, removed := some (e, state) }
    | none => none
  | .completeRemoved =>
    s.removed.map fun c => { s.completeEvent c.1.2 (evst c.2) with removed := none }
  | .received =>
    match s.mRecvQ with
    | b :: _ =>
      if s.phase = .up ∧ s.rspStage = .idle then some (b.elim s s.use) else none
    | [] => none
  | .recvOther vecs =>
    match s.mRecvQ with
    | none :: q =>
      if s.phase = .up ∧ s.rspStage = .idle ∧ s.cev = none then
        some { s with mRecvQ := q ++ List.replicate vecs none }
      else none
    | _ => none
  | .getAndRmEvent mId mStatus attachs file =>
    if s.phase = .up ∧ s.rspStage = .idle ∧ s.cev = none ∧ s.mRecvQ = [none] then
      match s.mSendEventMap.lookup mId.toUInt32 with
      | none => some s
      | some ev => some { s.removeEventEntry mId.toUInt32 with
          cev := some (mId.toUInt32, ev), rspStage := .found mId mStatus
          attachs := attachs, file := file, mRecvQ := [] }
    else none
  | .takeResponse =>
    match s.cev, s.rspStage with
    | some e, .found mId mStatus => some { s.setEvent e.2 fun c => c.takeResponse mId mStatus with
        rspStage := if s.attachs = 0 ∧ s.file = false then .ready else .prepare }
    | _, _ => none
  | .prepare =>
    match s.cev, s.rspStage with
    | some e, .prepare =>
      if s.attachs = 0 then some { s with rspStage := .idle, mRecvQ := s.mRecvQ ++ [none] }
      else some { s.use e.2 with
        rspStage := .idle, attachs := 0
        mRecvQ := s.mRecvQ ++ List.replicate s.attachs (some e.2) }
    | _, _ => none
  -- the exception leaves `recvProgress`, and the vector of the callback is not posted again
  | .badAlloc => if s.rspStage = .prepare then some { s with rspStage := .idle } else none
  | .recvAttach =>
    match s.mRecvQ with
    | some _ :: q =>
      if s.phase = .up ∧ s.rspStage = .idle ∧ s.cev.isSome then
        some { s with
          mRecvQ := q
          rspStage := if q = [] then (if s.file then .prepare else .ready) else .idle }
      else none
    | _ => none
  | .recvFile written last =>
    match s.cev, s.mRecvQ with
    | some e, [none] =>
      if s.phase = .up ∧ s.rspStage = .idle then
        some { s.use e.2 with mRecvQ := [], rspStage := if written ∧ last then .ready else .idle }
      else none
    | _, _ => none
  | .eventDone =>
    match s.cev with
    | some e =>
      if s.rspStage = .ready ∧ (s.events e.2).status ≠ CommEvent.PENDING then
        match (s.events e.2).response.message with
        | some (.response _ mStatus) => some { (s.use e.2).completeEvent e.2 mStatus with
            cev := none, rspStage := .idle, mRecvQ := s.mRecvQ ++ [none] }
        | _ => none
      else none
    | none => none
  | .recvErrCb =>
    match s.mRecvQ with
    | _ :: q =>
      if s.phase ≠ .deleted ∧ s.rspStage = .idle then
        match s.cev with
        | none => some { s with mRecvQ := q, recvFailed := true }
        | some e => some { (s.use e.2).removeEventEntry e.1 with
            mRecvQ := q, recvFailed := true, rspStage := .failed }
      else none
    | [] => none
  | .completeErr =>
    match s.cev with
    | some e =>
      if s.rspStage = .failed then some { s.completeEvent e.2 CommEvent.CONN_FAILURE with
        cev := none, rspStage := .idle }
      else none
    | none => none
  | .cleanup =>
    if s.phase = .up ∧ s.entered = [] ∧ s.sendIdle ∧ s.rspStage = .idle then
      some { s with phase := .tearing }
    else none
  | .cleanupVec how =>
    if s.phase = .tearing ∧ s.rspStage = .idle ∧ s.mRecvQ = [] ∧ s.sendIdle then
      s.flushNext.map fun (v, t) => t.sendCallback v how.vecState
    else none
  | .onDisconnect =>
    if s.phase = .tearing ∧ s.rspStage = .idle ∧ s.mRecvQ = [] ∧ s.sendIdle ∧
        s.mSendQ = [] ∧ s.mCurSendBlock = none then
      some { s with
        events := fun ev => if ev ∈ s.mSendEventMap.map Prod.snd
          then { s.events ev with status := CommEvent.CONN_FAILURE } else s.events ev
        log := s.log ++ (s.mSendEventMap.map Prod.snd).map .handBack
        mSendEventMap := [], cev := none, phase := .deleted }
    else none

end Requests

def requests : Machine Requests RequestStep where
  step := Requests.step

/-! ## A callback that nobody disturbs -/

variable {s : Requests} {w : World} {m : EventMap} {events : EventId → CommEvent}

/-- The map and the events are these. -/
structure Requests.Shows (s : Requests) (m : EventMap) (events : EventId → CommEvent) : Prop where
  map : s.mSendEventMap = m
  events : s.events = events

theorem Requests.Shows.remove (hs : s.Shows m events) (id : UInt32) :
    (s.removeEventEntry id).Shows (m.removeEntry id) events where
  map := congrArg (·.removeEntry id) hs.map
  events := hs.events

theorem Requests.Shows.complete (hs : s.Shows m events) (ev : EventId) (stev : Int32) :
    (s.completeEvent ev stev).Shows m
      (Function.update events ev { events ev with status := stev }) where
  map := hs.map
  events := by
    rw [← hs.events]
    rfl

theorem Requests.Shows.setEvent (hs : s.Shows m events) (ev : EventId)
    (f : CommEvent → CommEvent) :
    (s.setEvent ev f).Shows m (Function.update events ev (f (events ev))) where
  map := hs.map
  events := by
    rw [← hs.events]
    rfl

theorem sendReqCallback_steps (hs : s.Shows w.mSendEventMap w.events) {e : Entry}
    {state : VecState} (hcall : s.calling = some (e, state)) :
    Ends (sendReqCallback { reqId := e.1 } e.2 state) w
      (fun _ t => ∃ steps u, requests.run s steps = some u ∧ u.Shows t.mSendEventMap t.events)
      fun _ _ => False := by
  have hfail : state ≠ .DONE → requests.run s [.sendReqCallback, .completeRemoved] = some
      { (s.removeEventEntry e.1).completeEvent e.2 (Requests.evst state) with
        calling := none, removed := none } := by
    intro hne
    cases state
    · exact absurd rfl hne
    all_goals simp [requests, Requests.step, hcall, Requests.completeEvent]
  cases state
  case DONE =>
    have hend := hs.setEvent e.2 fun c => { c with status := CommEvent.SUCCESS }
    refine ⟨[.sendReqCallback],
      { s.setEvent e.2 fun c => { c with status := CommEvent.SUCCESS } with calling := none }, ?_,
      hend.map, hend.events⟩
    simp [requests, Requests.step, hcall]
  case ERROR =>
    have hend := (hs.remove e.1).complete e.2 CommEvent.SEND_FAILURE
    simp only [sendReqCallback, ends_bind, ends_removeEventEntry, reduceCtorEq, if_false,
      Bool.false_eq_true, ends_completeEvent]
    exact ⟨_, _, hfail (by simp), hend.map, hend.events⟩
  case CLEANUP =>
    have hend := (hs.remove e.1).complete e.2 CommEvent.STAGE_CLEANUP
    simp only [sendReqCallback, ends_bind, ends_removeEventEntry, if_true, if_false,
      Bool.false_eq_true, ends_completeEvent]
    exact ⟨_, _, hfail (by simp), hend.map, hend.events⟩

theorem recvErrCb_steps (hs : s.Shows w.mSendEventMap w.events) {v : Option EventId}
    {q : List (Option EventId)} (hclient : ∀ ev, (w.events ev).serverGen = false)
    (hcev : w.mRecvCb.cev = s.cev.map Prod.snd) (hid : ∀ e, s.cev = some e → w.mRecvCb.reqId = e.1)
    (hdone : w.mRecvCb.eventDone = false)
    (hq : s.mRecvQ = v :: q) (hup : s.phase ≠ .deleted ∧ s.rspStage = .idle) :
    Ends recvErrCb w
      (fun _ t => ∃ steps u, requests.run s steps = some u ∧ u.Shows t.mSendEventMap t.events)
      fun _ _ => False := by
  simp only [recvErrCb, ends_bind, ends_getCb, ends_modifyCb]
  rcases he : s.cev with _ | e
  · rw [he] at hcev
    simp only [hcev, Option.map_none, ends_pure]
    exact ⟨[], s, rfl, hs.map, hs.events⟩
  · rw [he] at hcev
    simp only [hcev, Option.map_some, ends_bind, ends_getEvent, hdone, hid e he, ends_ite,
      Bool.false_eq_true, if_false, ends_removeEventEntry, ends_completeEvent, ends_modifyCb,
      ends_pure]
    rw [if_neg (by simp [hclient])]
    have hend := (hs.remove e.1).complete e.2 CommEvent.CONN_FAILURE
    refine ⟨[.recvErrCb, .completeErr], { ((s.use e.2).removeEventEntry e.1).completeEvent e.2
      CommEvent.CONN_FAILURE with mRecvQ := q, recvFailed := true, cev := none, rspStage := .idle },
      ?_, hend.map, hend.events⟩
    simp [requests, Requests.step, hq, hup, he, Requests.use, Requests.removeEventEntry,
      Requests.completeEvent]

/-- `recvRspMsg` for a response without attachments. -/
theorem recvRspMsg_steps {env : Env} (hs : s.Shows w.mSendEventMap w.events) (mId : UInt64)
    (mStatus : Int32) (iov : IoVec)
    (hclient : ∀ ev, (w.events ev).serverGen = false) (hcev : w.mRecvCb.cev = none)
    (hatt : w.mRecvCb.attLen = 0) (hfile : w.mRecvCb.fileLen = 0)
    (hup : s.phase = .up ∧ s.rspStage = .idle ∧ s.cev = none ∧ s.mRecvQ = [none]) :
    Ends (recvRspMsg env mId mStatus iov) w
      (fun _ t => ∃ steps u, requests.run s steps = some u ∧ u.Shows t.mSendEventMap t.events)
      fun _ t => ∃ steps u, requests.run s steps = some u ∧ u.Shows t.mSendEventMap t.events := by
  simp only [recvRspMsg, ends_bind, ends_getAndRmEvent]
  rcases hl : w.mSendEventMap.lookup mId.toUInt32 with _ | ev
  · -- nothing is taken out of the map
    have hno : w.mSendEventMap.filter (·.1 != mId.toUInt32) = w.mSendEventMap := by
      refine List.filter_eq_self.2 fun e he => ?_
      rw [bne_comm]
      exact List.lookup_eq_none_iff.1 hl e he
    exact ⟨[], s, rfl, hs.map.trans hno.symm, hs.events⟩
  · have hl' : s.mSendEventMap.lookup mId.toUInt32 = some ev := hs.map ▸ hl
    let s₁ := { s.removeEventEntry mId.toUInt32 with
      cev := some (mId.toUInt32, ev), rspStage := RspStage.found mId mStatus
      attachs := 0, file := false, mRecvQ := [] }
    let s₂ := { s₁.setEvent ev fun c => c.takeResponse mId mStatus with rspStage := RspStage.ready }
    let s₃ := { (s₂.use ev).completeEvent ev mStatus with
      cev := none, rspStage := RspStage.idle, mRecvQ := [none] }
    have h₁ : requests.step s (.getAndRmEvent mId mStatus 0 false) = some s₁ := by
      simp only [requests, Requests.step, hl', hup, and_self, if_true, s₁]
    have h₂ : requests.step s₁ .takeResponse = some s₂ := rfl
    have h₃ : requests.step s₂ .eventDone = some s₃ := by
      have hev : s₂.events ev = (s.events ev).takeResponse mId mStatus := Function.update_self ..
      have hst : (s₂.events ev).status ≠ CommEvent.PENDING := by
        rw [hev]
        exact CommEvent.takeResponse_status _ _ _
      have hmsg : (s₂.events ev).response.message = some (.response mId mStatus) := by
        rw [hev]
        rfl
      have hcev : s₂.cev = some (mId.toUInt32, ev) := rfl
      have hstage : s₂.rspStage = .ready := rfl
      simp only [requests, Requests.step, hcev, hstage, hst, hmsg, ne_eq, not_false_eq_true,
        and_self, if_true]
      rfl
    have hrun : requests.run s [.getAndRmEvent mId mStatus 0 false, .takeResponse, .eventDone]
        = some s₃ := by
      simp only [Machine.run_cons, h₁, h₂, h₃, Option.bind_some, Machine.run_nil]
    have htaken := (hs.remove mId.toUInt32).setEvent ev fun c => c.takeResponse mId mStatus
    have hend := htaken.complete ev mStatus
    have hgen : ((w.events ev).takeResponse mId mStatus).serverGen ≠ true := by
      simp [CommEvent.takeResponse, hclient]
    have hmsg : ((w.events ev).takeResponse mId mStatus).response.message
        = some (.response mId mStatus) := rfl
    simp only [recvRspEvent, ends_bind, ends_getCb, hcev, ends_ASSERT, hatt, hfile,
      beq_self_eq_true, if_true, ends_modifyCb, ends_modifyEvent, gt_iff_lt, UInt32.lt_irrefl,
      UInt64.lt_irrefl, if_false, ends_pure, checkEventReady, eventDone, ends_modify, ends_getEvent,
      Function.update_self, ends_ite]
    rw [if_neg hgen, if_neg (CommEvent.takeResponse_status _ _ _)]
    simp only [hmsg, ends_completeEvent, ends_setNextRecv, repostIoVec, ends_bind,
      ends_newChar, ends_postRecv]
    split_ifs
    · exact ⟨_, s₃, hrun, hend.map, hend.events⟩
    · exact ⟨_, s₃, hrun, hend.map, hend.events⟩

end Longda
