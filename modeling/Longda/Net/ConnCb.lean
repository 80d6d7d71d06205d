import Longda.Comm.PackHeader
import Longda.Net.Conn

/-!
# The receive callbacks

`recvCallback` is entered with each receive vector that completes, and what it does depends on the
part of the frame the connection expects next. Each function of the source is a computation here;
its `ends_` rule says how it ends in every state.

Who frees a vector or a message is left out, and so are the counters that nothing on this path
reads.
-/

namespace Longda

open Lib

variable (env : Env)

/-- `(n + gMaxBlockSize - 1) / gMaxBlockSize` in 64 bits, cut to the 32 bits of `remainVecs`. -/
def Env.blockCount (n : UInt64) : UInt32 :=
  ((n + UInt64.ofNat env.gMaxBlockSize - 1) / UInt64.ofNat env.gMaxBlockSize).toUInt32

/-- The size of a first block of `n` bytes. -/
def Env.blockSize (n : UInt64) : ℕ :=
  if env.gMaxBlockSize > n.toNat then n.toNat else env.gMaxBlockSize

/-- The turns of `for (int i = 0; i < (int)n; i++)`. -/
def intCount (n : ℕ) : ℕ := (Int32.ofNat n).toInt.toNat

theorem intCount_eq_ite (n : ℕ) :
    intCount n = if n % 2 ^ 32 < 2 ^ 31 then n % 2 ^ 32 else 0 := by
  have h : (Int32.ofNat n).toInt = (n : ℤ).bmod (2 ^ 32) := Int32.toInt_ofNat'
  rw [Int.bmod_def] at h
  unfold intCount
  split_ifs at h ⊢ <;> omega

/-- The event of the parameter is given up: it is done on the server and fails on the client. -/
def recvErrCb : RecvM ConnStatus := do
  let cbp ← getCb
  modifyCb fun c => { c with cev := none }
  match cbp.cev with
  | none => pure .SUCCESS
  | some cev => do
    let e ← getEvent cev
    if cbp.eventDone then pure .SUCCESS
    else if e.serverGen then do
      modifyCb fun c => { c with eventDone := true }
      call (.done cev)
      pure .SUCCESS
    else do
      removeEventEntry cbp.reqId
      completeEvent cev CommEvent.CONN_FAILURE
      modifyCb fun c => { c with eventDone := true }
      pure .SUCCESS

def repostIoVec (iov : IoVec) (baseLen : ℕ) : RecvM Unit := do
  newChar env
  postRecv (iov.renew baseLen)

def repostReusedIoVec (baseLen : UInt64) (iov : IoVec) : RecvM Unit := do
  newChar env
  postRecv (iov.renew (env.blockSize baseLen))
  modifyCb fun c => { c with remainVecs := env.blockCount baseLen }

def prepare2Drain (iov : IoVec) (leftSize : UInt64) : RecvM Unit := do
  call (.prepare2Drain leftSize)
  if leftSize > 0 then do
    modifyCb fun c => { c with drainLen := leftSize }
    repostReusedIoVec env leftSize iov
    setNextRecv .DRAIN
  else do
    let _ ← recvErrCb
    modifyCb fun c => { c with drainLen := 0 }
    repostIoVec env iov HDR_LEN
    setNextRecv .HEADER

def recvHeaderCb (iov : IoVec) : RecvM ConnStatus := do
  let hdr := PackHeader.decode iov.base
  ASSERT (iov.size == HDR_LEN) "bad IoVec size"
  modifyCb fun _ => { attLen := hdr.mAttLen.toUInt32, fileLen := hdr.mFileLen }
  if hdr.isRpc then do
    ASSERT (iov.alloc == .SYS_ALLOC) "bad alloc"
    setNextRecv .MESSAGE
    repostIoVec env iov hdr.mMsgLen.toNat
    pure .SUCCESS
  else do
    let cbp ← getCb
    prepare2Drain env iov (hdr.mMsgLen + cbp.attLen.toUInt64 + cbp.fileLen)
    pure .CONN_ERR_MISMATCH

/-! ## Attachments -/

/-- The loop of `allocAttachIoVecs`: so many blocks of the full size. -/
def attachBlocks : ℕ → RecvM (List VecT)
  | 0 => pure []
  | n + 1 => do
    newChar env
    let vs ← attachBlocks n
    pure ({ base := [], size := Int32.ofNat env.gMaxBlockSize } :: vs)

/-- `allocAttachIoVecs`, with its `int` block count and last size. -/
def allocAttachIoVecs (baseLen : UInt64) : RecvM (List VecT) := do
  let blockCount := (env.blockCount baseLen).toInt32
  let vs ← attachBlocks env (blockCount - 1).toInt.toNat
  let full := (blockCount - 1) * Int32.ofNat env.gMaxBlockSize
  newChar env
  pure (vs ++ [{ base := [], size := (baseLen - full.toInt64.toUInt64).toUInt32.toInt32 }])

/-- The next `n` buffers are granted. -/
def Env.Grants (k n : ℕ) : Prop := ∀ i < n, env.mem (k + i) = true

instance (k n : ℕ) : Decidable (env.Grants k n) := Nat.decidableBallLT _ _

@[simp] theorem grants_zero (k : ℕ) : env.Grants k 0 := by simp [Env.Grants]

@[simp] theorem grants_one {k : ℕ} : env.Grants k 1 ↔ env.mem k = true := by simp [Env.Grants]

theorem grants_add {k m n : ℕ} : env.Grants k (m + n) ↔ env.Grants k m ∧ env.Grants (k + m) n := by
  refine ⟨fun h => ⟨fun i hi => h i (by omega), fun i hi => ?_⟩, fun h i hi => ?_⟩
  · rw [Nat.add_assoc]
    exact h (m + i) (by omega)
  · by_cases him : i < m
    · exact h.1 i him
    · have := h.2 (i - m) (by omega)
      rwa [Nat.add_assoc, Nat.add_sub_cancel' (by omega)] at this

/-- One of the next `n` buffers is refused, and nothing else happens but the requests. -/
def Refused (n : ℕ) (w : World) (f : Fault) (t : World) : Prop :=
  f = .badAlloc ∧ ¬ env.Grants w.news n ∧ ∃ k, t = { w with news := k }

theorem Refused.mem {n : ℕ} {w t : World} {f : Fault} (h : Refused env n w f t) :
    ∃ k, env.mem k = false := by
  by_contra hk
  refine h.2.1 fun i _ => ?_
  cases hm : env.mem (w.news + i) with
  | true => rfl
  | false => exact absurd ⟨_, hm⟩ hk

theorem attachBlocks_ends (n : ℕ) (w : World) :
    Ends (attachBlocks env n) w
      (fun vs t => vs = List.replicate n { base := [], size := Int32.ofNat env.gMaxBlockSize }
        ∧ t = { w with news := w.news + n } ∧ env.Grants w.news n)
      (Refused env n w) := by
  induction n generalizing w with
  | zero => exact ⟨rfl, rfl, grants_zero env _⟩
  | succ n ih =>
    have hsplit : env.Grants w.news (n + 1) ↔
        env.mem w.news = true ∧ env.Grants (w.news + 1) n := by
      rw [Nat.add_comm n 1, grants_add, grants_one]
    simp only [attachBlocks, ends_bind, ends_newChar, ends_pure]
    split_ifs with hm
    · refine (ih _).mono ?_ ?_
      · rintro vs t ⟨rfl, rfl, hg⟩
        exact ⟨rfl, by simp [Nat.add_assoc, Nat.add_comm 1 n], hsplit.2 ⟨hm, hg⟩⟩
      · rintro e t ⟨he, hg, k, rfl⟩
        exact ⟨he, fun h => hg (hsplit.1 h).2, k, rfl⟩
    · exact ⟨rfl, fun h => hm (hsplit.1 h).1, _, rfl⟩

/-- The blocks an attachment of `baseLen` bytes is received into. -/
def Env.attachMems (baseLen : UInt64) : List VecT :=
  let blockCount := (env.blockCount baseLen).toInt32
  let full := (blockCount - 1) * Int32.ofNat env.gMaxBlockSize
  List.replicate (blockCount - 1).toInt.toNat
      { base := [], size := Int32.ofNat env.gMaxBlockSize }
    ++ [{ base := [], size := (baseLen - full.toInt64.toUInt64).toUInt32.toInt32 }]

theorem allocAttachIoVecs_ends (baseLen : UInt64) (w : World) :
    Ends (allocAttachIoVecs env baseLen) w
      (fun vs t => vs = env.attachMems baseLen
        ∧ t = { w with news := w.news + (env.attachMems baseLen).length }
        ∧ env.Grants w.news (env.attachMems baseLen).length)
      (Refused env (env.attachMems baseLen).length w) := by
  have hlen : (env.attachMems baseLen).length
      = ((env.blockCount baseLen).toInt32 - 1).toInt.toNat + 1 := by simp [Env.attachMems]
  have hsplit := grants_add env (k := w.news)
    (m := ((env.blockCount baseLen).toInt32 - 1).toInt.toNat) (n := 1)
  rw [grants_one] at hsplit
  simp only [allocAttachIoVecs, ends_bind, ends_newChar, ends_pure, Refused, hlen]
  refine (attachBlocks_ends env _ w).mono ?_ ?_
  · rintro vs t ⟨rfl, rfl, hg⟩
    split_ifs with hm
    · exact ⟨rfl, by simp only [Nat.add_assoc], hsplit.2 ⟨hg, hm⟩⟩
    · exact ⟨trivial, fun h => hm (hsplit.1 h).2, _, rfl⟩
  · rintro e t ⟨he, hg, k, rfl⟩
    exact ⟨he, fun h => hg (hsplit.1 h).1, k, rfl⟩

def pushAttachMessage (attachMems : List VecT) : RecvM Unit := do
  modifyCb fun c => { c with remainVecs := UInt32.ofNat attachMems.length }
  postRecvs ((attachMems.take (intCount attachMems.length)).map (IoVec.ofVec · .USER_ALLOC))

def recvPrepareFileIov : RecvM Unit := do
  modifyCb fun c => { c with fileOffset := 0 }
  let cbp ← getCb
  newChar env
  modifyCb fun c => { c with remainVecs := env.blockCount cbp.fileLen }
  setNextRecv .ATTACHFILE
  postRecv { base := [], size := env.blockSize cbp.fileLen, alloc := .SYS_ALLOC }

@[simp] theorem ends_recvPrepareFileIov {w : World} {Q : Unit → World → Prop}
    {R : Fault → World → Prop} :
    Ends (recvPrepareFileIov env) w Q R ↔
      if env.mem w.news then Q () { w with
        news := w.news + 1
        mRecvCb :=
          { w.mRecvCb with fileOffset := 0, remainVecs := env.blockCount w.mRecvCb.fileLen }
        mNextRecvPart := .ATTACHFILE
        mRecvQ := w.mRecvQ ++
          [{ base := [], size := env.blockSize w.mRecvCb.fileLen, alloc := .SYS_ALLOC }] }
      else R .badAlloc
        { w with mRecvCb := { w.mRecvCb with fileOffset := 0 }, news := w.news + 1 } := by
  simp only [recvPrepareFileIov, ends_bind, ends_modifyCb, ends_getCb, ends_newChar,
    ends_setNextRecv, ends_postRecv]

/-- The two loops of `recvPrepareRspAttach` that shorten the buffers of the caller to `leftSize`
bytes; `turns` is how many elements the second may still reach. Where the buffers run out first the
source reads past the end of its vector. -/
def truncateMems : Int32 → ℕ → List VecT → Option (List VecT)
  | leftSize, _, [] => if leftSize > 0 then none else some []
  | leftSize, turns, v :: vs =>
    if leftSize > 0 then
      if v.size > leftSize then
        some ({ v with size := leftSize }
          :: ((vs.take (turns - 1)).map fun u => { u with size := 0 }) ++ vs.drop (turns - 1))
      else (truncateMems (leftSize - v.size) (turns - 1) vs).map (v :: ·)
    else some ((((v :: vs).take turns).map fun u => { u with size := 0 }) ++ (v :: vs).drop turns)

/-- The buffers of the response once they have been fitted to the announced length. -/
def fitAttachMems (attLen : UInt32) (mems : List VecT) : RecvM (List VecT) :=
  let turns := intCount mems.length
  let allocLen := (mems.take turns).foldl (fun n v => n + v.size.toUInt32) 0
  if mems = [] then allocAttachIoVecs env attLen.toUInt64
  else if allocLen = attLen then pure mems
  else if allocLen > attLen then
    match truncateMems attLen.toInt32 turns mems with
    | some fitted => pure fitted
    | none => throw .undefined
  else do
    let more ← allocAttachIoVecs env (attLen - allocLen).toUInt64
    pure (mems ++ more)

def recvPrepareRspAttach (cev : EventId) : RecvM Unit := do
  let e ← getEvent cev
  let cbp ← getCb
  let mems ← fitAttachMems env cbp.attLen e.response.attachMems
  modifyEvent cev fun e => { e with response := { e.response with attachMems := mems } }
  pushAttachMessage mems
  setNextRecv .ATTACHMENT

/-! ## The end of a frame -/

/-- On the server the event goes to the next stage, on the client it completes. The source waits
while the event is `PENDING`. -/
def eventDone : Option EventId → RecvM Unit
  | none => throw (.assertFailed "invalid comm event pointer")
  | some cev => do
    modify fun w => { w with msgIn := w.msgIn + 1 }
    let e ← getEvent cev
    if e.serverGen then call (.addEvent cev)
    else if e.status = CommEvent.PENDING then throw .busyWait
    else match e.response.message with
      | some (.response _ mStatus) => completeEvent cev mStatus
      | _ => throw .undefined

def checkEventReady (eventReady : Bool) (iov : IoVec) : RecvM Unit :=
  if eventReady then do
    let cbp ← getCb
    eventDone cbp.cev
    setNextRecv .HEADER
    modifyCb fun c => { c with cev := none }
    repostIoVec env iov HDR_LEN
  else pure ()

@[simp] theorem ends_checkEventReady_false {iov : IoVec} {w : World} {Q : Unit → World → Prop}
    {R : Fault → World → Prop} : Ends (checkEventReady env false iov) w Q R ↔ Q () w := Iff.rfl

/-! ## Messages -/

/-- The new event of `recvReqMsg`. -/
def newServerEvent (mId : UInt64) (attachMems : List VecT) : RecvM EventId := do
  let w ← get
  set { w with
    nextEvent := w.nextEvent + 1
    events := Function.update w.events w.nextEvent
      { sock := w.mSock, serverGen := true, requestId := mId.toUInt32, targetHost := w.peerHost
        request := { message := some (.request mId), attachMems := attachMems } } }
  pure w.nextEvent

@[simp] theorem ends_newServerEvent {mId : UInt64} {mems : List VecT} {w : World}
    {Q : EventId → World → Prop} {R : Fault → World → Prop} :
    Ends (newServerEvent mId mems) w Q R ↔ Q w.nextEvent { w with
      nextEvent := w.nextEvent + 1
      events := Function.update w.events w.nextEvent
        { sock := w.mSock, serverGen := true, requestId := mId.toUInt32, targetHost := w.peerHost
          request := { message := some (.request mId), attachMems := mems } } } := Iff.rfl

def recvReqMsg (mId : UInt64) (iov : IoVec) : RecvM ConnStatus := do
  let cbp ← getCb
  let (attachMems, eventReady) ←
    if cbp.attLen > 0 then do
      let mems ← allocAttachIoVecs env cbp.attLen.toUInt64
      pushAttachMessage mems
      setNextRecv .ATTACHMENT
      pure (mems, false)
    else if cbp.fileLen ≠ 0 then do
      recvPrepareFileIov env
      pure ([], false)
    else pure ([], true)
  let cbp ← getCb
  ASSERT (cbp.cev == none) "cev must be 0"
  let cev ← newServerEvent mId attachMems
  modifyCb fun c => { c with cev := some cev }
  checkEventReady env eventReady iov
  pure .SUCCESS

/-- The status and the message `recvRspMsg` gives the event. A status still `PENDING` is overwritten
here, before the callback of the last vector sent has run. -/
def CommEvent.takeResponse (e : CommEvent) (mId : UInt64) (mStatus : Int32) : CommEvent where
  __ := e
  status :=
    if mStatus = VERSION_MISMATCH ∨ mStatus = MALFORMED_MESSAGE then mStatus
    else if e.status = PENDING then SUCCESS
    else e.status
  response := { e.response with message := some (.response mId mStatus) }

theorem CommEvent.takeResponse_status (c : CommEvent) (mId : UInt64) (mStatus : Int32) :
    (c.takeResponse mId mStatus).status ≠ CommEvent.PENDING := by
  simp only [CommEvent.takeResponse]
  split_ifs with h1 h2
  · rcases h1 with rfl | rfl <;> decide
  · decide
  · exact h2

/-- What `recvRspMsg` does with the event it has found. -/
def recvRspEvent (cev : EventId) (mId : UInt64) (mStatus : Int32) (iov : IoVec) :
    RecvM ConnStatus := do
  let cbp ← getCb
  ASSERT (cbp.cev == none) "cev must be 0 here"
  modifyCb fun c => { c with cev := some cev, reqId := mId.toUInt32 }
  modifyEvent cev fun e => e.takeResponse mId mStatus
  let eventReady ←
    if cbp.attLen > 0 then do
      recvPrepareRspAttach env cev
      pure false
    else if cbp.fileLen > 0 then do
      recvPrepareFileIov env
      pure false
    else pure true
  checkEventReady env eventReady iov
  pure .SUCCESS

def recvRspMsg (mId : UInt64) (mStatus : Int32) (iov : IoVec) : RecvM ConnStatus := do
  let found ← getAndRmEvent mId.toUInt32
  match found with
  | none => pure .CONN_ERR_NOCEV
  | some cev => recvRspEvent env cev mId mStatus iov

/-- The id is read where a message has it, whatever the length of the message, and the frame of the
error response needs a buffer. -/
def sendBadMsgErr (base : List UInt8) (errCode : Int32) (errMsg : String) : RecvM Unit := do
  let mId := UInt64.ofNat (leNat ((base.drop 8).take 8))
  newChar env
  call (.sendResponse mId.toUInt32 errCode errMsg)

/-- The bytes behind the message, as the `MESSAGE` state counts them. -/
def CbParam.leftSize (cbp : CbParam) : UInt64 := cbp.attLen.toUInt64 + cbp.fileLen

/-- The part of `recvCallback` for the `MESSAGE` state. -/
def recvMessageCb (iov : IoVec) : RecvM ConnStatus :=
  match env.deserialize iov.base (UInt64.ofNat iov.size).toUInt32.toInt32 with
  | none => do
    sendBadMsgErr env iov.base CommEvent.MALFORMED_MESSAGE "Failed to deserialize message"
    let cbp ← getCb
    prepare2Drain env iov cbp.leftSize
    pure .CONN_ERR_MISMATCH
  | some (.request mId) => do
    let rc ← recvReqMsg env mId iov
    let cbp ← getCb
    if rc ≠ .SUCCESS then prepare2Drain env iov cbp.leftSize
    pure rc
  | some (.response mId mStatus) => do
    let rc ← recvRspMsg env mId mStatus iov
    let cbp ← getCb
    if rc ≠ .SUCCESS then prepare2Drain env iov cbp.leftSize
    pure rc
  | some (.other _) => do
    let cbp ← getCb
    prepare2Drain env iov cbp.leftSize
    pure .CONN_ERR_MISMATCH

/-! ## Attachments, files and drained bytes -/

def recvAttach (iov : IoVec) : RecvM ConnStatus := do
  let cbp ← getCb
  if cbp.fileLen = 0 then checkEventReady env true iov
  else do
    recvPrepareFileIov env
    checkEventReady env false iov
  pure .SUCCESS

/-- `CLstring::valToStr` in decimal. -/
def valToStr (n : ℤ) : Path := (toString n).toList.map fun c => UInt8.ofNat c.toNat

def generateRcvFileName (cev : EventId) : RecvM Path := do
  let w ← get
  set { w with names := w.names + 1 }
  let e ← getEvent cev
  pure (env.select w.names ++ [47] ++ cStr e.targetHost ++ [95] ++ valToStr (env.usec w.names).toInt
    ++ [95] ++ valToStr e.requestId.toNat)

/-- `writeToFile`; a write of no bytes fails only where the file cannot be opened. -/
def writeToFile (fileName : Path) (data : List UInt8) (append : Bool) : RecvM Bool := do
  let w ← get
  let old := if append then (w.localFiles (cStr fileName)).getD [] else []
  let write (kept : List UInt8) : RecvM Unit := set { w with
    writes := w.writes + 1
    localFiles := Function.update w.localFiles (cStr fileName) (some (old ++ kept)) }
  match env.disk w.writes with
  | .written => do
    write data
    pure true
  | .notOpened => do
    set { w with writes := w.writes + 1 }
    pure false
  | .short count => do
    write (data.take count)
    pure (data.isEmpty)

/-- `md->attachFilePath = fileName` for the descriptor that is being received. -/
def CommEvent.setAttachFilePath (e : CommEvent) (fileName : Path) : CommEvent :=
  if e.serverGen then { e with request := { e.request with attachFilePath := fileName } }
  else { e with response := { e.response with attachFilePath := fileName } }

/-- The name the first block is written under, and the name later blocks are. -/
def recvFileName (cbp : CbParam) (first : Bool) : RecvM Path :=
  if first then
    match cbp.cev with
    | none => throw .undefined
    | some cev => do
      let fileName ← generateRcvFileName env cev
      modifyEvent cev fun e => e.setAttachFilePath fileName
      pure fileName
  else pure cbp.filePath

def recvFile (iov : IoVec) : RecvM ConnStatus := do
  let cbp ← getCb
  let first := cbp.remainVecs == env.blockCount cbp.fileLen
  let fileName ← recvFileName env cbp first
  let ok ← writeToFile env fileName (iov.base.take iov.size) !first
  if ok then do
    modifyCb fun c =>
      { c with
        filePath := if first then strncpyPath fileName else c.filePath
        remainVecs := c.remainVecs - 1 }
    if cbp.remainVecs - 1 = 0 then checkEventReady env true iov
    else pure ()
    pure .SUCCESS
  else pure .CONN_ERR_WRITEFILE

def recvDrain (iov : IoVec) : RecvM ConnStatus := do
  modifyCb fun c => { c with remainVecs := c.remainVecs - 1 }
  let cbp ← getCb
  if cbp.remainVecs = 0 then do
    let _ ← recvErrCb
    setNextRecv .HEADER
    repostIoVec env iov HDR_LEN
  else if cbp.remainVecs = 1 then
    postRecv (iov.renew (cbp.drainLen % UInt64.ofNat env.gMaxBlockSize).toUInt32.toNat)
  else postRecv (iov.renew iov.size)
  pure .SUCCESS

/-- The part of `recvCallback` for the `ATTACHMENT` state. -/
def recvAttachCb (iov : IoVec) : RecvM ConnStatus := do
  modifyCb fun c => { c with remainVecs := c.remainVecs - 1 }
  let cbp ← getCb
  if cbp.remainVecs = 0 then recvAttach env iov else pure .SUCCESS

def recvCallback (iov : IoVec) : VecState → RecvM ConnStatus
  | .CLEANUP => recvErrCb
  | .ERROR => recvErrCb
  | .DONE => do
    let nr ← getNextRecv
    match nr with
    | .HEADER => recvHeaderCb env iov
    | .MESSAGE => recvMessageCb env iov
    | .ATTACHMENT => recvAttachCb env iov
    | .ATTACHFILE => recvFile env iov
    | .DRAIN => recvDrain env iov

/-- The vector `prepareRecvHeader` makes. -/
def prepareRecvHeader : IoVec := { base := [], size := HDR_LEN, alloc := .SYS_ALLOC }

/-- `connCallback(ON_CONNECT)`. -/
def onConnect : RecvM Unit := do
  postRecv prepareRecvHeader
  modifyCb fun _ => {}

end Longda
