import Longda.Comm.Codec
import Longda.Net.Delivery
import Longda.Net.Responses

/-!
# From one end to the other

The send side of a connection, the stream between two processes and the receive side of the other
put together, with the messages as they are serialized. What is on the socket is what `wire` makes
of the vectors posted, up to where the sender is; the stream that has arrived is a beginning of it;
and the receiver makes of it the frames that are all there: a server hands over the requests
(`requests_end_to_end`), and a client completes its events with the responses
(`responses_end_to_end`). Both ends are free in how they take their turns, and so is the kernel in
how many bytes it accepts and hands out.
-/

namespace Longda

open Lib

/-! ## The messages of the connection -/

namespace WireMessage

theorem getSerialSize_lt (m : WireMessage) : m.getSerialSize < 2 ^ 31 := by
  cases m with
  | request r => exact (by decide : Request.getSerialSize < 2 ^ 31)
  | response r => exact (by decide : Response.getSerialSize < 2 ^ 31)

/-- The class of a message, and what the connection reads of it. -/
def toMessage : WireMessage → Message
  | request r => .request r.mId
  | response r => .response r.mId r.mStatus

instance : Serializable WireMessage where
  getSerialSize := getSerialSize
  getSerialSize_lt := getSerialSize_lt
  serialize m buffer :=
    if buffer.length = m.getSerialSize then
      let (rc, out) := m.serialize buffer m.getSerialSize
      if rc = 0 then some out else none
    else none
  length_serialize := by
    intro m buffer out h
    split_ifs at h with hl
    rw [serialize_eq le_rfl hl.ge] at h
    obtain rfl := Option.some.inj h
    exact length_poke (by rw [m.length_bytes, hl, Nat.zero_add])

theorem serialize_bytes {m : WireMessage} {buffer : List UInt8}
    (h : buffer.length = m.getSerialSize) :
    Serializable.serialize m buffer = some m.bytes := by
  show (if buffer.length = m.getSerialSize then _ else none) = _
  rw [if_pos h, serialize_eq le_rfl h.ge]
  have hdrop : buffer.drop m.bytes.length = [] := List.drop_eq_nil_of_le (by rw [m.length_bytes, h])
  simp [poke_zero, hdrop]

end WireMessage

/-- `gDeserializable->deserialize`, where it is a `CSimpleDeserializer`. -/
def deserializeWire (newRequest : Request) (newResponse : Response) (bs : List UInt8)
    (size : Int32) : Option Message :=
  ((CSimpleDeserializer.deserialize newRequest newResponse size.toInt).val fun i =>
    bs.getD i 0).map WireMessage.toMessage

theorem toInt_ofNat_of_lt {n : ℕ} (h : n < 2 ^ 31) :
    (UInt64.ofNat n).toUInt32.toInt32.toInt = n := by
  have hn : (UInt64.ofNat n).toUInt32.toNat = n := by
    rw [UInt64.toNat_toUInt32, UInt64.toNat_ofNat']
    omega
  rw [toInt_toInt32, hn, Int.bmod_def]
  split_ifs <;> omega

theorem deserializeWire_bytes (newRequest : Request) (newResponse : Response) (m : WireMessage) :
    deserializeWire newRequest newResponse m.bytes
      (UInt64.ofNat m.bytes.length).toUInt32.toInt32 = some m.toMessage := by
  have hlen : ((UInt64.ofNat m.bytes.length).toUInt32.toInt32).toInt = m.getSerialSize := by
    rw [m.length_bytes, toInt_ofNat_of_lt m.getSerialSize_lt]
  rw [deserializeWire, CSimpleDeserializer.val_deserialize (hasAt_getD m.bytes) hlen.ge]
  cases m <;> rfl

/-! ## The batches posted -/

/-- What a batch with an RPC header puts on the connection. -/
theorem wire_rpc {files : Files} {md : SendDesc WireMessage} {m : WireMessage} {kind : FrameKind}
    {garbage : ℕ → UInt8} {batch : List SendVec} (hm : md.message = some m)
    (hprepared : prepareFrame garbage md.toMsgDesc kind = some batch)
    (hframed : CanFrame files md kind) : ∃ (hdr : PackHeader) (file : List UInt8),
    wire files batch = hdr.encode ++ m.bytes ++ md.attBytes ++ file
      ∧ fileBytes files md.toMsgDesc = some file ∧ hdr.isRpc = true
      ∧ hdr.mMsgLen.toNat = m.bytes.length ∧ hdr.mAttLen.toNat = md.attBytes.length
      ∧ hdr.mFileLen = md.attachFileLen := by
  rw [prepareFrame_eq] at hprepared
  obtain ⟨batch, hbatch, rfl⟩ := Option.map_eq_some_iff.1 hprepared
  unfold prepareIovecs at hbatch
  split_ifs at hbatch with hn
  obtain ⟨iov, hiov, rfl⟩ := Option.map_eq_some_iff.1 hbatch
  obtain ⟨hdr, msg, hmsg, rfl, hrpc, hlen, ha, hf⟩ := makeRpcMessage_some hiov
  obtain rfl : msg = m.bytes := by
    rw [msgBytes, hm, Option.bind_some,
      WireMessage.serialize_bytes (by rw [List.length_map, List.length_range]; rfl)] at hmsg
    exact (Option.some.inj hmsg).symm
  obtain ⟨hatt, hfile⟩ := hframed
  obtain ⟨file, hbytes, hsent⟩ := (sent_file_iff files md.toMsgDesc _).2 hfile
  refine ⟨hdr, file, ?_, hbytes, hrpc, hlen, ?_, hf⟩
  · have hfull : (hdr.encode ++ m.bytes).take (HDR_LEN + m.bytes.length) = hdr.encode ++ m.bytes :=
      List.take_of_length_le (by simp)
    rw [wire_modify_last files _ _ md.filled _ rfl, hfull, hsent, SendDesc.attBytes]
  · rw [ha]
    exact (attLenOf_eq_iff md hn).2 hatt

/-- A request as a client posts it: its batch is made, is sent as its header says, and can be taken
at the other end. -/
structure Outgoing (env : Env) (files : Files) where
  md : SendDesc WireMessage
  request : Request
  cev : EventId
  reqId : UInt32
  garbage : ℕ → UInt8
  batch : List SendVec
  message : md.message = some (.request request)
  prepared : prepareFrame garbage md.toMsgDesc (.request cev reqId) = some batch
  framed : CanFrame files md (.request cev reqId)
  blocks_lt : env.blocks md.attBytes.length < 2 ^ 31
  follows : md.attBytes ≠ [] → md.attachFileLen ≠ 0
  file_le : md.attachFileLen.toNat ≤ env.gMaxBlockSize

/-- A response as a server posts it, with nothing attached. -/
structure Reply (files : Files) where
  md : SendDesc WireMessage
  response : Response
  cev : EventId
  garbage : ℕ → UInt8
  batch : List SendVec
  message : md.message = some (.response response)
  prepared : prepareFrame garbage md.toMsgDesc (.response cev) = some batch
  att_nil : md.attBytes = []
  fileLen : md.attachFileLen = 0

section Frames

variable {env : Env} {files : Files}

/-- The frame is the bytes of the batch, with the parts of the request. -/
structure Outgoing.Carried (q : Outgoing env files) (f : ReqFrame env) : Prop where
  wire : f.wire = wire files q.batch
  mId : f.mId = q.request.mId
  msg : f.msg = (WireMessage.request q.request).bytes
  att : f.att = q.md.attBytes
  file : fileBytes files q.md.toMsgDesc = some f.file

theorem Outgoing.exists_frame {newRequest : Request} {newResponse : Response}
    (hcodec : env.deserialize = deserializeWire newRequest newResponse) (q : Outgoing env files) :
    ∃ f : ReqFrame env, q.Carried f := by
  obtain ⟨hdr, file, hwire, hfile, hrpc, hm, ha, hf⟩ := wire_rpc q.message q.prepared q.framed
  have hlen := length_fileBytes hfile
  have hatt := q.framed.1
  exact ⟨{
    hdr := hdr
    msg := (WireMessage.request q.request).bytes
    att := q.md.attBytes
    file := file
    mId := q.request.mId
    rpc := hrpc
    msgLen := hm
    attLen := ha
    fileLen := by rw [hf, hlen]
    parsed := by
      rw [hcodec]
      exact deserializeWire_bytes newRequest newResponse (.request q.request)
    att_lt := by omega
    blocks_lt := q.blocks_lt
    follows := fun h hnil => q.follows h (by
      rw [← UInt64.toNat_inj, hlen, hnil]
      rfl)
    file_le := hlen ▸ q.file_le }, ⟨hwire.symm, rfl, rfl, rfl, hfile⟩⟩

theorem Outgoing.frames {newRequest : Request} {newResponse : Response}
    (hcodec : env.deserialize = deserializeWire newRequest newResponse)
    (hmem : ∀ k, env.mem k = true) (hdisk : ∀ k, env.disk k = .written) :
    (requestProtocol hmem hdisk).Frames files (@Outgoing.batch env files) Outgoing.Carried := by
  intro q
  obtain ⟨f, hf⟩ := Outgoing.exists_frame hcodec q
  exact ⟨f, hf, f.flatten_pieces.trans hf.wire⟩

/-- A client posts requests on its connection, the stream carries what has been written of them so
far, or less, and a server receives it. At any time the server has handed the first of the requests
to its next stage, each once, in the order they were posted, with the message, the attachment and
the file they were posted with; when it has come to the end of what has arrived, the next request
has not all arrived. -/
theorem requests_end_to_end {newRequest : Request} {newResponse : Response}
    (hcodec : env.deserialize = deserializeWire newRequest newResponse)
    (hmem : ∀ k, env.mem k = true) (hdisk : ∀ k, env.disk k = .written)
    (qs : List (Outgoing env files)) {sendSteps : List SendStep} {s : Sending}
    (hsend : (sending files).run {} sendSteps = some s) (hfailed : s.failed = false)
    (hposted : s.posted.map Posted.vec = qs.flatMap Outgoing.batch) {stream : List UInt8}
    (harrived : stream <+: s.written) {w : World} (hw : Connected w) {recvSteps : List RecvStep}
    {r : Receiver Unit}
    (hrecv : (receiving (w.posting env)).run (w.receiver stream) recvSteps = some r)
    (hr : r.broken = false) : ∃ done todo fs t, qs = done ++ todo
      ∧ List.Forall₂ Outgoing.Carried done fs ∧ w.after env r.completed = some t ∧ Requested w fs t
      ∧ wire files (done.flatMap Outgoing.batch) <+: stream
      ∧ (r.Exhausted → ∀ q ∈ todo.head?,
        ¬ wire files ((done ++ [q]).flatMap Outgoing.batch) <+: stream) := by
  obtain ⟨done, todo, fs, t, hsplit, hfs, hafter, ⟨u, hrounds, -, hquiet⟩, hend⟩ :=
    FrameProtocol.frames_end_to_end (Outgoing.frames hcodec hmem hdisk) qs hsend hfailed hposted
      harrived hw.waiting hrecv hr
  exact ⟨done, todo, fs, t, hsplit, hfs, hafter, .of_rounds hrounds hquiet, hend⟩

/-- The frame is the bytes of the batch, with the id and the status of the response. -/
structure Reply.Carried (q : Reply files) (f : RspFrame env) : Prop where
  wire : f.hdr.encode ++ f.msg = wire files q.batch
  mId : f.mId = q.response.mId
  mStatus : f.mStatus = q.response.mStatus
  msg : f.msg = (WireMessage.response q.response).bytes

theorem Reply.exists_frame {newRequest : Request} {newResponse : Response}
    (hcodec : env.deserialize = deserializeWire newRequest newResponse) (q : Reply files) :
    ∃ f : RspFrame env, q.Carried f := by
  obtain ⟨hdr, file, hwire, hfile, hrpc, hm, ha, hf⟩ :=
    @wire_rpc files _ _ _ _ _ q.message q.prepared ⟨by simp [q.att_nil], .inl q.fileLen⟩
  rw [fileBytes, if_pos q.fileLen, Option.some.injEq] at hfile
  rw [q.att_nil, ← hfile, List.append_nil, List.append_nil] at hwire
  exact ⟨{
    hdr := hdr
    msg := (WireMessage.response q.response).bytes
    mId := q.response.mId
    mStatus := q.response.mStatus
    rpc := hrpc
    msgLen := hm
    attLen := by rw [← UInt64.toNat_inj, ha, q.att_nil]; rfl
    fileLen := by rw [hf, q.fileLen]
    parsed := by
      rw [hcodec]
      exact deserializeWire_bytes newRequest newResponse (.response q.response) },
    ⟨hwire.symm, rfl, rfl, rfl⟩⟩

theorem Reply.frames {newRequest : Request} {newResponse : Response}
    (hcodec : env.deserialize = deserializeWire newRequest newResponse)
    (hmem : ∀ k, env.mem k = true) :
    (responseProtocol hmem).Frames files (@Reply.batch files) Reply.Carried := by
  intro q
  obtain ⟨f, hf⟩ := Reply.exists_frame hcodec q
  refine ⟨f, hf, Eq.trans ?_ hf.wire⟩
  simp [FrameProtocol.wire, responseProtocol, RspFrame.pieces]

/-- A server posts responses on its connection, in any order, some of them perhaps more than once or
for requests that were never made, and a client receives what has arrived of them. At any time each
event that waited under the id of one that has been taken has completed exactly once, with the first
of them, and every other event is as it was; when the client has come to the end of what has
arrived, the next response has not all arrived. -/
theorem responses_end_to_end {newRequest : Request} {newResponse : Response}
    (hcodec : env.deserialize = deserializeWire newRequest newResponse)
    (hmem : ∀ k, env.mem k = true) (qs : List (Reply files)) {sendSteps : List SendStep}
    {s : Sending} (hsend : (sending files).run {} sendSteps = some s) (hfailed : s.failed = false)
    (hposted : s.posted.map Posted.vec = qs.flatMap Reply.batch) {stream : List UInt8}
    (harrived : stream <+: s.written) {w : World} (hw : Waiting w) (hasking : Asking w)
    {recvSteps : List RecvStep} {r : Receiver Unit}
    (hrecv : (receiving (w.posting env)).run (w.receiver stream) recvSteps = some r)
    (hr : r.broken = false) : ∃ done todo, ∃ fs : List (RspFrame env), ∃ t, qs = done ++ todo
      ∧ List.Forall₂ Reply.Carried done fs ∧ w.after env r.completed = some t ∧ Responded w fs t
      ∧ wire files (done.flatMap Reply.batch) <+: stream
      ∧ (r.Exhausted → ∀ q ∈ todo.head?,
        ¬ wire files ((done ++ [q]).flatMap Reply.batch) <+: stream) := by
  obtain ⟨done, todo, fs, t, hsplit, hfs, hafter, ⟨u, hrounds, -, hstill⟩, hend⟩ :=
    FrameProtocol.frames_end_to_end (Reply.frames hcodec hmem) qs hsend hfailed hposted harrived
      ⟨hw, hasking⟩ hrecv hr
  exact ⟨done, todo, fs, t, hsplit, hfs, hafter, .of_rounds hasking hrounds hstill, hend⟩

end Frames

section Samples

/-- Blocks of 64 bytes, every buffer granted, and messages as they are serialized. -/
def wireEnv : Env := { sampleEnv with
  deserialize := deserializeWire CSimpleDeserializer.sampleRequest
    CSimpleDeserializer.sampleResponse }

/-- The header and the message of a frame in a buffer of zeros. -/
def frameVec (md : MsgDesc WireMessage) (m : WireMessage) : SendVec where
  base := ({ mType := fun i => MSG_TYPE_RPC.getD i 0, mMsgLen := UInt64.ofNat m.getSerialSize,
             mAttLen := (attLenOf md.attachMems).toInt64.toUInt64, mFileLen := md.attachFileLen } :
    PackHeader).encode ++ m.bytes
  size := HDR_LEN + m.getSerialSize
  alloc := .SYS_ALLOC

theorem length_frameVec (md : MsgDesc WireMessage) (m : WireMessage) :
    (frameVec md m).base.length = (frameVec md m).size := by
  simp [frameVec, m.length_bytes]

theorem makeRpcMessage_eq {md : MsgDesc WireMessage} {m : WireMessage} (hm : md.message = some m)
    (hn : md.attachMems.length < 2 ^ 32) :
    makeRpcMessage (fun _ => 0) md = some (frameVec md m) := by
  have hlen : HDR_LEN + m.getSerialSize < 2 ^ 31 := by
    cases m with
    | request r => exact (by decide : HDR_LEN + Request.getSerialSize < 2 ^ 31)
    | response r => exact (by decide : HDR_LEN + Response.getSerialSize < 2 ^ 31)
  have hbuffer : ((List.range m.getSerialSize).map fun _ => (0 : UInt8)).length
      = m.getSerialSize := by simp
  have hbytes := WireMessage.serialize_bytes hbuffer
  rw [makeRpcMessage, if_pos hn, hm, Option.bind_some]
  exact (if_pos hlen).trans ((congrArg (Option.map _) hbytes).trans rfl)

/-- A request with a byte attached and a file of three bytes. -/
def ladenDesc : SendDesc WireMessage where
  message := some (.request CSimpleDeserializer.sampleRequest)
  attachMems := [{ base := [3], size := 1 }]
  attachFileLen := 3
  attachFilePath := [102]
  filled v hv := by
    obtain rfl := List.mem_singleton.1 hv
    rfl

def ladenVec : SendVec :=
  frameVec ladenDesc.toMsgDesc (.request CSimpleDeserializer.sampleRequest)

def attachVec : SendVec :=
  { SendVec.ofVec { base := [3], size := 1 } with
    cbParam := some { cev := some 1, reqId := 8, fileLen := 3, filePath := strncpyPath [102] } }

def ladenOutgoing : Outgoing wireEnv sampleFiles where
  md := ladenDesc
  request := CSimpleDeserializer.sampleRequest
  cev := 1
  reqId := 8
  garbage := fun _ => 0
  batch := [ladenVec, attachVec]
  message := rfl
  prepared := by
    rw [prepareFrame, prepareReqIovecs, prepareIovecs, if_pos (by decide),
      makeRpcMessage_eq rfl (by decide)]
    rfl
  framed := ⟨by decide, .inr ⟨1, 8, fun _ => 7, fun _ => 7, rfl, rfl, rfl, rfl⟩⟩
  blocks_lt := by decide
  follows := by decide
  file_le := by decide

/-- A request with nothing attached. -/
def bareDesc : SendDesc WireMessage where
  message := some (.request CSimpleDeserializer.sampleRequest)
  filled := by simp

/-- The one vector of the request. -/
def bareVec : SendVec :=
  { frameVec bareDesc.toMsgDesc (.request CSimpleDeserializer.sampleRequest) with
    cbParam := some { cev := some 0, reqId := 7 } }

def bareOutgoing (files : Files) : Outgoing wireEnv files where
  md := bareDesc
  request := CSimpleDeserializer.sampleRequest
  cev := 0
  reqId := 7
  garbage := fun _ => 0
  batch := [bareVec]
  message := rfl
  prepared := by
    rw [prepareFrame, prepareReqIovecs, prepareIovecs, if_pos (by decide),
      makeRpcMessage_eq rfl (by decide)]
    rfl
  framed := ⟨by decide, .inl rfl⟩
  blocks_lt := by decide
  follows := by decide
  file_le := by decide

def ladenFresh : FreshVec where
  toSendVec := ladenVec
  filled := length_frameVec _ _
  fresh := rfl
  pending := fun _ h => by cases h

def attachFresh : FreshVec where
  toSendVec := attachVec
  filled := by rfl
  fresh := rfl
  pending := fun _ h => by cases h; rfl

def bareFresh : FreshVec where
  toSendVec := bareVec
  filled := length_frameVec _ _
  fresh := rfl
  pending := fun _ h => by cases h; rfl

/-- A vector is written in the parts, its file is sent, and the next one is taken up. -/
def sendVecSteps (parts : List ℕ) (file : List (Option ℕ)) : List SendStep :=
  [.unlock, .lock, .test, .loop] ++ parts.flatMap (fun n => [.sent n, .loop]) ++
    [.complete file, .endCallback, .next]

/-- Two requests are posted and written in several parts. -/
def sendTwo : List SendStep :=
  [.postSend [ladenFresh, attachFresh], .postSend [bareFresh], .socketWritable, .epollWait,
    .setReadyToSend, .pushSock, .sendData, .lock, .test, .next] ++ sendVecSteps [100, 64] [] ++
    sendVecSteps [1] [some 2, some 1] ++ sendVecSteps [164] []

/-- A vector is received in the parts, and the next one is taken up. -/
def recvVecSteps (parts : List ℕ) : List RecvStep :=
  parts.map .recv ++ [.complete, .next, .test]

/-- The first frame is received as header, message, attachment and file, and then the second. -/
def recvTwo : List RecvStep :=
  [.recvProgress true, .test, .next, .test] ++ recvVecSteps [32] ++ recvVecSteps [100, 32] ++
    recvVecSteps [1] ++ recvVecSteps [3] ++ recvVecSteps [30, 2] ++ recvVecSteps [132] ++
    [.recvNothing .again]

/-- The run ends with the stream exhausted, and a vector waiting. -/
theorem received_all {x : Option (Receiver Unit)}
    (h : (x.any fun r => !r.broken && r.unread.isEmpty && r.pending.isSome) = true) :
    ∃ r, x = some r ∧ r.broken = false ∧ r.Exhausted := by
  obtain ⟨r, hrecv, hr⟩ := (Option.any_eq_true _ _).1 h
  simp only [Bool.and_eq_true, Bool.not_eq_true', List.isEmpty_iff, Option.isSome_iff_ne_none]
    at hr
  exact ⟨r, hrecv, hr.1.1, .inr ⟨hr.1.2, hr.2⟩⟩

/-- Where all batches are on the connection, there is none of which not all has arrived. -/
theorem all_done {β : Type*} {files : Files} {batch : β → List SendVec} {qs done todo : List β}
    (hsplit : qs = done ++ todo) (hend : ∀ q ∈ todo.head?,
      ¬ wire files ((done ++ [q]).flatMap batch) <+: wire files (qs.flatMap batch)) :
    qs = done := by
  rcases todo with _ | ⟨q, todo⟩
  · rw [hsplit, List.append_nil]
  · have hsub : wire files ((done ++ [q]).flatMap batch) <+: wire files (qs.flatMap batch) :=
      ⟨wire files (todo.flatMap batch), by simp [hsplit, wire]⟩
    exact absurd hsub (hend q rfl)

theorem requests_end_to_end_two : ∃ s r fs t, (sending sampleFiles).run {} sendTwo = some s
    ∧ (receiving (sampleWorld.posting wireEnv)).run (sampleWorld.receiver s.written) recvTwo
      = some r
    ∧ List.Forall₂ Outgoing.Carried [ladenOutgoing, bareOutgoing sampleFiles] fs
    ∧ sampleWorld.after wireEnv r.completed = some t ∧ Requested sampleWorld fs t := by
  let qs := [ladenOutgoing, bareOutgoing sampleFiles]
  obtain ⟨s, hsend, hfailed, hposted, hwritten⟩ : ∃ s, (sending sampleFiles).run {} sendTwo = some s
      ∧ s.failed = false ∧ s.posted.map Posted.vec = qs.flatMap Outgoing.batch
        ∧ s.written = wire sampleFiles (qs.flatMap Outgoing.batch) :=
    ⟨_, rfl, rfl, rfl, by decide +kernel⟩
  obtain ⟨r, hrecv, hbroken, hexhausted⟩ : ∃ r, (receiving (sampleWorld.posting wireEnv)).run
      (sampleWorld.receiver (wire sampleFiles (qs.flatMap Outgoing.batch))) recvTwo = some r
        ∧ r.broken = false ∧ r.Exhausted := received_all (by decide +kernel)
  obtain ⟨done, todo, fs, t, hsplit, hfs, hafter, hreached, -, hend⟩ :=
    @requests_end_to_end wireEnv _ _ _ rfl (fun _ => rfl) (fun _ => rfl) qs _ s hsend
      hfailed hposted _ (hwritten ▸ List.prefix_refl _) _ connected_sampleWorld _ r hrecv hbroken
  obtain rfl := all_done hsplit (hend hexhausted)
  exact ⟨s, r, fs, t, hsend, by rw [hwritten, hrecv], hfs, hafter, hreached⟩

/-- Responses with nothing attached to the requests 7 and 8. -/
def sampleReply (mId : UInt64) (mStatus : Int32) : Response :=
  { CSimpleDeserializer.sampleResponse with mId, mStatus }

def replyDesc (response : Response) : SendDesc WireMessage where
  message := some (.response response)
  filled := by simp

def replyVec (response : Response) : SendVec :=
  { frameVec (replyDesc response).toMsgDesc (.response response) with
    cbParam := some { cev := some 0 } }

def bareReply (response : Response) : Reply fun _ => none where
  md := replyDesc response
  response := response
  cev := 0
  garbage := fun _ => 0
  batch := [replyVec response]
  message := rfl
  prepared := by
    have hn : (replyDesc response).attachMems.length < 2 ^ 31 := Nat.two_pow_pos 31
    rw [prepareFrame, prepareRespIovecs, prepareIovecs, if_pos hn,
      makeRpcMessage_eq rfl (hn.trans (by decide))]
    rfl
  att_nil := rfl
  fileLen := rfl

def replyFresh (response : Response) : FreshVec where
  toSendVec := replyVec response
  filled := length_frameVec _ _
  fresh := rfl
  pending := fun _ h => by cases h; rfl

/-- A client with two events that wait, for the responses to the requests 7 and 8. -/
def askingWorld : World :=
  { sampleWorld with mSendEventMap := [(7, 0), (8, 1)], nextEvent := 2 }

theorem asking_askingWorld : Asking askingWorld :=
  ⟨by simp [askingWorld], by simp [askingWorld], by simp [askingWorld, sampleWorld]⟩

/-- An event that waits has completed with the first response to its id. -/
theorem completions_first {p : UInt32 × EventId} (hp : p ∈ askingWorld.mSendEventMap)
    {fs : List (RspFrame wireEnv)} {f : RspFrame wireEnv}
    (hfind : fs.find? (·.id == p.1) = some f) {t : World} (h : Responded askingWorld fs t) :
    t.completions p.2 = [.completeEvent p.2 f.mStatus] := by
  have hdone := h.outstanding p hp
  rw [hfind] at hdone
  exact hdone.1

theorem Reply.Carried.id {files : Files} {q : Reply files} {f : RspFrame wireEnv}
    (h : q.Carried f) : f.id = q.response.mId.toUInt32 := congrArg UInt64.toUInt32 h.mId

/-- The request 7 is answered twice, and the request 8 in between. -/
def threeReplies : List (Reply fun _ => none) :=
  [bareReply (sampleReply 7 (-2)), bareReply (sampleReply 8 0), bareReply (sampleReply 7 5)]

def sendReplies : List SendStep :=
  [.postSend [replyFresh (sampleReply 7 (-2))], .postSend [replyFresh (sampleReply 8 0)],
    .postSend [replyFresh (sampleReply 7 5)], .socketWritable, .epollWait, .setReadyToSend,
    .pushSock, .sendData, .lock, .test, .next] ++ sendVecSteps [180] [] ++
    sendVecSteps [100, 80] [] ++ sendVecSteps [180] []

def recvReplies : List RecvStep :=
  [.recvProgress true, .test, .next, .test] ++ recvVecSteps [32] ++ recvVecSteps [148] ++
    recvVecSteps [32] ++ recvVecSteps [48, 100] ++ recvVecSteps [30, 2] ++ recvVecSteps [148] ++
    [.recvNothing .again]

/-- Each event has completed once, the first one with the first of its responses. -/
theorem completions_three {fs : List (RspFrame wireEnv)} {t : World}
    (hfs : List.Forall₂ Reply.Carried threeReplies fs) (h : Responded askingWorld fs t) :
    t.completions 0 = [.completeEvent 0 (-2)] ∧ t.completions 1 = [.completeEvent 1 0] := by
  obtain ⟨f, gs, hf, hgs, rfl⟩ := List.forall₂_cons_left_iff.1 hfs
  obtain ⟨g, hs, hg, -, rfl⟩ := List.forall₂_cons_left_iff.1 hgs
  have hfid : f.id = 7 := hf.id
  have hgid : g.id = 8 := hg.id
  constructor
  · have hfind : (f :: g :: hs).find? (·.id == (7 : UInt32)) = some f := by simp [hfid]
    have hdone := completions_first (p := (7, 0)) (by simp [askingWorld]) hfind h
    rwa [hf.mStatus] at hdone
  · have hfind : (f :: g :: hs).find? (·.id == (8 : UInt32)) = some g := by simp [hfid, hgid]
    have hdone := completions_first (p := (8, 1)) (by simp [askingWorld]) hfind h
    rwa [hg.mStatus] at hdone

theorem responses_end_to_end_three : ∃ s r t,
    (sending fun _ => none).run {} sendReplies = some s
    ∧ (receiving (askingWorld.posting wireEnv)).run (askingWorld.receiver s.written) recvReplies
      = some r
    ∧ askingWorld.after wireEnv r.completed = some t
    ∧ t.completions 0 = [.completeEvent 0 (-2)] ∧ t.completions 1 = [.completeEvent 1 0] := by
  obtain ⟨s, hsend, hfailed, hposted, hwritten⟩ : ∃ s,
      (sending fun _ => none).run {} sendReplies = some s ∧ s.failed = false
        ∧ s.posted.map Posted.vec = threeReplies.flatMap Reply.batch
        ∧ s.written = wire (fun _ => none) (threeReplies.flatMap Reply.batch) :=
    ⟨_, rfl, rfl, rfl, by decide +kernel⟩
  obtain ⟨r, hrecv, hbroken, hexhausted⟩ : ∃ r, (receiving (askingWorld.posting wireEnv)).run
      (askingWorld.receiver (wire (fun _ => none) (threeReplies.flatMap Reply.batch))) recvReplies
        = some r ∧ r.broken = false ∧ r.Exhausted := received_all (by decide +kernel)
  obtain ⟨done, todo, fs, t, hsplit, hfs, hafter, hanswered, -, hend⟩ :=
    @responses_end_to_end wireEnv _ _ _ rfl (fun _ => rfl) threeReplies _ s hsend hfailed hposted
      _ (hwritten ▸ List.prefix_refl _) askingWorld ⟨rfl, rfl⟩ asking_askingWorld _ r hrecv hbroken
  obtain rfl := all_done hsplit (hend hexhausted)
  exact ⟨s, r, t, hsend, by rw [hwritten, hrecv], hafter, completions_three hfs hanswered⟩

end Samples

end Longda
