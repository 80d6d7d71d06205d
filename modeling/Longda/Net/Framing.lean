import Longda.Net.IovUtil

/-!
# When a sent frame is what its header announces

A request whose attachments total below `2 ^ 31` bytes is framed as its header says, provided the
path fits the parameter's field. A response is so framed only without a file, since
`prepareRespIovecs` leaves the file fields of its parameter zero while the header announces the
file (`framed_iff`).
-/

namespace Longda

variable {μ : Type*} [Serializable μ]

/-- The message bytes of the descriptor, as `serialize` leaves them in the buffer. -/
def msgBytes (garbage : ℕ → UInt8) (md : MsgDesc μ) : Option (List UInt8) :=
  md.message.bind fun message =>
    Serializable.serialize message
      ((List.range (Serializable.getSerialSize message)).map fun i => garbage (HDR_LEN + i))

/-- The file bytes of the descriptor, if it has a file or needs none. -/
def fileBytes (files : Files) (md : MsgDesc μ) : Option (List UInt8) :=
  if md.attachFileLen = 0 then some []
  else (files (cStr md.attachFilePath)).map fun file =>
    fileSlice file md.attachFileOffset.toNat md.attachFileLen.toNat

/-- The bytes on the connection are a header, then as many message, attachment and file bytes as
that header announces. -/
def Framed (garbage : ℕ → UInt8) (files : Files) (md : SendDesc μ) (sent : List UInt8) : Prop :=
  ∃ (hdr : PackHeader) (msg file : List UInt8), msgBytes garbage md.toMsgDesc = some msg
    ∧ fileBytes files md.toMsgDesc = some file
    ∧ sent = hdr.encode ++ msg ++ md.attBytes ++ file
    ∧ hdr.mMsgLen.toNat = msg.length ∧ hdr.mAttLen.toNat = md.attBytes.length
    ∧ hdr.mFileLen.toNat = file.length

/-- What a frame needs to be sent as its header says: attachments of less than `2 ^ 31` bytes, and
no file, or a request whose path names the same bytes when cut to the parameter's field. -/
def CanFrame (files : Files) (md : SendDesc μ) (kind : FrameKind) : Prop :=
  md.attBytes.length < 2 ^ 31 ∧
    (md.attachFileLen = 0 ∨
      ∃ cev reqId file cut, kind = .request cev reqId ∧ files (cStr md.attachFilePath) = some file
        ∧ files (strncpyPath md.attachFilePath) = some cut
        ∧ fileSlice cut md.attachFileOffset.toNat md.attachFileLen.toNat
          = fileSlice file md.attachFileOffset.toNat md.attachFileLen.toNat)

/-- The parameter hung on the last vector of the batch. -/
def frameParam (md : MsgDesc μ) : FrameKind → CbParam
  | .request cev reqId =>
    { cev := some cev, reqId := reqId, fileOffset := md.attachFileOffset,
      fileLen := md.attachFileLen, filePath := strncpyPath md.attachFilePath }
  | .response cev => { cev := some cev }

theorem prepareFrame_eq (garbage : ℕ → UInt8) (md : MsgDesc μ) (kind : FrameKind) :
    prepareFrame garbage md kind = (prepareIovecs garbage md).map fun iovs =>
      iovs.modify md.attachMems.length (SendVec.setCallback (frameParam md kind)) := by
  cases kind <;> rfl

/-- The header and message vector holds an RPC header with the lengths of the descriptor, then the
message bytes, and nothing else. -/
theorem makeRpcMessage_some {garbage : ℕ → UInt8} {md : MsgDesc μ} {iov : SendVec}
    (h : makeRpcMessage garbage md = some iov) :
    ∃ (hdr : PackHeader) (msg : List UInt8), msgBytes garbage md = some msg
      ∧ iov = { base := hdr.encode ++ msg, size := HDR_LEN + msg.length, alloc := .SYS_ALLOC }
      ∧ hdr.isRpc = true ∧ hdr.mMsgLen.toNat = msg.length
      ∧ hdr.mAttLen = (attLenOf md.attachMems).toInt64.toUInt64
      ∧ hdr.mFileLen = md.attachFileLen := by
  unfold makeRpcMessage at h
  split_ifs at h with hn
  obtain ⟨message, hm, h⟩ := Option.bind_eq_some_iff.1 h
  simp only [] at h
  split_ifs at h with hl
  obtain ⟨body, hb, rfl⟩ := Option.map_eq_some_iff.1 h
  have hlen : body.length = Serializable.getSerialSize message := by
    simpa using Serializable.length_serialize hb
  have hsize := Serializable.getSerialSize_lt message
  refine ⟨_, body, ?_, by rw [hlen], ?_, ?_, rfl, rfl⟩
  · simp [msgBytes, hm, hb]
  · simp [PackHeader.isRpc, MSG_TYPE_RPC]
  · simp only [UInt64.toNat_ofNat', hlen]
    omega

/-- What a prepared frame puts on the connection. -/
theorem wire_prepareFrame (files : Files) {garbage : ℕ → UInt8} {md : SendDesc μ}
    {kind : FrameKind} {iovs : List SendVec}
    (h : prepareFrame garbage md.toMsgDesc kind = some iovs) :
    md.attachMems.length < 2 ^ 31 ∧ ∃ (hdr : PackHeader) (msg : List UInt8),
      msgBytes garbage md.toMsgDesc = some msg
        ∧ wire files iovs = hdr.encode ++ (msg ++ md.attBytes
          ++ (sendCallbackFile files (some (frameParam md.toMsgDesc kind)) .DONE).1)
        ∧ hdr.mMsgLen.toNat = msg.length
        ∧ hdr.mAttLen = (attLenOf md.attachMems).toInt64.toUInt64
        ∧ hdr.mFileLen = md.attachFileLen := by
  rw [prepareFrame_eq] at h
  obtain ⟨batch, hbatch, rfl⟩ := Option.map_eq_some_iff.1 h
  unfold prepareIovecs at hbatch
  split_ifs at hbatch with hn
  obtain ⟨iov, hiov, rfl⟩ := Option.map_eq_some_iff.1 hbatch
  obtain ⟨hdr, msg, hmsg, rfl, -, hm, ha, hf⟩ := makeRpcMessage_some hiov
  refine ⟨hn, hdr, msg, hmsg, ?_, hm, ha, hf⟩
  have hfull : (hdr.encode ++ msg).take (HDR_LEN + msg.length) = hdr.encode ++ msg :=
    List.take_of_length_le (by simp)
  rw [wire_modify_last files _ _ md.filled _ rfl, hfull]
  simp [SendDesc.attBytes]

omit [Serializable μ] in
theorem length_fileBytes {files : Files} {md : MsgDesc μ} {file : List UInt8}
    (h : fileBytes files md = some file) : md.attachFileLen.toNat = file.length := by
  unfold fileBytes at h
  split_ifs at h with h0
  · obtain rfl := Option.some.inj h
    simp [h0]
  · obtain ⟨_, -, rfl⟩ := Option.map_eq_some_iff.1 h
    simp

omit [Serializable μ] in
/-- The file bytes behind a request or a response are those of the descriptor exactly where the
descriptor has no file, or a request names the same bytes by the path its parameter keeps. -/
theorem sent_file_iff (files : Files) (md : MsgDesc μ) (kind : FrameKind) :
    (∃ file, fileBytes files md = some file
        ∧ (sendCallbackFile files (some (frameParam md kind)) .DONE).1 = file)
      ↔ md.attachFileLen = 0 ∨
        ∃ cev reqId file cut, kind = .request cev reqId ∧ files (cStr md.attachFilePath) = some file
          ∧ files (strncpyPath md.attachFilePath) = some cut
          ∧ fileSlice cut md.attachFileOffset.toNat md.attachFileLen.toNat
            = fileSlice file md.attachFileOffset.toNat md.attachFileLen.toNat := by
  rw [sendCallbackFile_some]
  by_cases h0 : md.attachFileLen = 0
  · have hp : (frameParam md kind).fileLen = 0 := by cases kind <;> simp [frameParam, h0]
    simp [fileBytes, h0, hp]
  · rw [or_iff_right h0]
    cases kind with
    | request cev reqId =>
      simp only [fileBytes, h0, frameParam, if_false, Option.map_eq_some_iff]
      constructor
      · rintro ⟨_, ⟨file, hfile, rfl⟩, hsent⟩
        rcases hcut : files (strncpyPath md.attachFilePath) with _ | cut
        · have := congrArg List.length hsent
          simp [hcut] at this
          exact absurd (UInt64.toNat_inj.1 (by simpa using this.symm)) h0
        · exact ⟨cev, reqId, file, cut, rfl, hfile, rfl, by simpa [hcut] using hsent⟩
      · rintro ⟨_, _, file, cut, _, hfile, hcut, hsent⟩
        exact ⟨_, ⟨file, hfile, rfl⟩, by simpa [hcut] using hsent⟩
    | response cev =>
      simp only [fileBytes, h0, frameParam, if_true, if_false, Option.map_eq_some_iff]
      constructor
      · rintro ⟨_, ⟨file, -, rfl⟩, hsent⟩
        have := congrArg List.length hsent
        simp only [List.length_nil, length_fileSlice] at this
        exact absurd (UInt64.toNat_inj.1 (by simpa using this.symm)) h0
      · rintro ⟨_, _, _, _, hkind, -⟩
        cases hkind

/-- A prepared frame is sent as its header announces exactly when it can. -/
theorem framed_iff (garbage : ℕ → UInt8) (files : Files) (md : SendDesc μ) (kind : FrameKind)
    (iovs : List SendVec) (h : prepareFrame garbage md.toMsgDesc kind = some iovs) :
    Framed garbage files md (wire files iovs) ↔ CanFrame files md kind := by
  obtain ⟨hn, hdr, msg, hmsg, hwire, hm, ha, hf⟩ := wire_prepareFrame files h
  unfold CanFrame
  rw [← sent_file_iff, hwire]
  constructor
  · rintro ⟨hdr', msg', file, hmsg', hfile, hsent, -, ha', -⟩
    obtain rfl : msg = msg' := Option.some.inj (hmsg.symm.trans hmsg')
    simp only [List.append_assoc] at hsent
    obtain ⟨rfl, hrest⟩ := PackHeader.encode_append_inj hsent
    refine ⟨(attLenOf_eq_iff md hn).1 (by rw [← ha, ha']), file, hfile, ?_⟩
    exact List.append_cancel_left (List.append_cancel_left hrest)
  · rintro ⟨hatt, file, hfile, hsent⟩
    refine ⟨hdr, msg, file, hmsg, hfile, by simp [hsent], hm, ?_, ?_⟩
    · rw [ha]
      exact (attLenOf_eq_iff md hn).2 hatt
    · rw [hf]
      exact length_fileBytes hfile

section Samples

/-- A message that is its own serialization. -/
structure RawMessage where
  bytes : List UInt8
  length_lt : bytes.length < 2 ^ 31

instance : Serializable RawMessage where
  getSerialSize m := m.bytes.length
  getSerialSize_lt m := m.length_lt
  serialize m buffer := if buffer.length = m.bytes.length then some m.bytes else none
  length_serialize := by
    intro m buffer out h
    split_ifs at h with hl
    obtain rfl := Option.some.inj h
    exact hl.symm

/-- A two-byte message with the first `len` bytes of the file `"f"` attached. -/
def sampleDesc (len : UInt64) : SendDesc RawMessage where
  message := some { bytes := [1, 2], length_lt := by decide }
  attachMems := [{ base := [3], size := 1 }]
  attachFileLen := len
  attachFilePath := [102]
  filled := by simp [VecT.Filled]

/-- A file system with one file, `"f"`, all of sevens. -/
def sampleFiles : Files := fun p => if p = [102] then some fun _ => 7 else none

theorem framed_request : ∃ iovs,
    prepareFrame (fun _ => 0) (sampleDesc 3).toMsgDesc (.request 0 1) = some iovs
      ∧ Framed (fun _ => 0) sampleFiles (sampleDesc 3) (wire sampleFiles iovs) := by
  refine ⟨_, rfl, (framed_iff _ sampleFiles (sampleDesc 3) (.request 0 1) _ rfl).2 ?_⟩
  exact ⟨by decide, .inr ⟨0, 1, fun _ => 7, fun _ => 7, rfl, rfl, rfl, rfl⟩⟩

/-- A response that announces three file bytes and sends none. -/
theorem response_not_framed : ∃ iovs,
    prepareFrame (fun _ => 0) (sampleDesc 3).toMsgDesc (.response 0) = some iovs
      ∧ ¬ Framed (fun _ => 0) sampleFiles (sampleDesc 3) (wire sampleFiles iovs) := by
  have hframe : prepareFrame (fun _ => 0) (sampleDesc 3).toMsgDesc (.response 0) = some _ := rfl
  refine ⟨_, hframe, ?_⟩
  obtain ⟨-, hdr, msg, hmsg, hwire, -⟩ := wire_prepareFrame sampleFiles hframe
  rw [hwire]
  rintro ⟨hdr', msg', file, hmsg', hfile, hsent, -⟩
  obtain rfl : msg = msg' := Option.some.inj (hmsg.symm.trans hmsg')
  obtain rfl : [7, 7, 7] = file := Option.some.inj hfile
  have := congrArg List.length hsent
  simp [sendCallbackFile, frameParam] at this

end Samples

end Longda
