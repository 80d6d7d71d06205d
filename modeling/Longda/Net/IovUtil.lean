import Longda.Comm.PackHeader
import Longda.Lib.MachineInt
import Longda.Net.SockUtil

/-!
# From a descriptor to the bytes of a frame

`makeRpcMessage` builds the header and the message in one vector, `prepareIovecs` puts one vector
for each attachment behind it, and `prepareReqIovecs` and `prepareRespIovecs` hang the callback
parameter on the last. `wire` is what a batch puts on the connection when each vector completes
and `sendCallback` transmits the file its parameter names.

The parameter of a response keeps its file fields zero, while the header of either kind announces
the file of the descriptor.
-/

namespace Longda

open Lib

variable {μ : Type*} [Serializable μ]

/-- A vector of the send queue with its callback parameter. -/
structure SendVec extends IoVec where
  cbParam : Option CbParam := none

/-- The vector of an attachment, before a parameter is set. -/
def SendVec.ofVec (v : VecT) : SendVec where
  toIoVec := IoVec.ofVec v .USER_ALLOC

/-- `setCallback(Conn::sendCallback, cbp)`. -/
def SendVec.setCallback (cbp : CbParam) (v : SendVec) : SendVec := { v with cbParam := some cbp }

/-- The attachment total of `makeRpcMessage`, accumulated in an `int`. -/
def attLenOf (attachMems : List VecT) : Int32 :=
  attachMems.foldl (fun attLen v => attLen + v.size) 0

/-- `makeRpcMessage` with a fresh buffer that holds `garbage`. There is no result where the message
is missing or does not serialize, where the buffer length overflows its `int` so that `new` throws,
and where the 32-bit loop counter never reaches the number of attachments. -/
def makeRpcMessage (garbage : ℕ → UInt8) (md : MsgDesc μ) : Option SendVec :=
  if md.attachMems.length < 2 ^ 32 then
    md.message.bind fun message =>
      let attLen := attLenOf md.attachMems
      let msgLen := Serializable.getSerialSize message
      let msgHdrLen := HDR_LEN + msgLen
      if msgHdrLen < 2 ^ 31 then
        let hdr : PackHeader :=
          { mType := fun i => MSG_TYPE_RPC.getD i (garbage i)
            mMsgLen := UInt64.ofNat msgLen
            mAttLen := attLen.toInt64.toUInt64
            mFileLen := md.attachFileLen }
        let buffer := (List.range msgLen).map fun i => garbage (HDR_LEN + i)
        (Serializable.serialize message buffer).map fun body =>
          { base := hdr.encode ++ body, size := msgHdrLen, alloc := .SYS_ALLOC }
      else none
  else none

/-- `prepareIovecs`. From `2 ^ 31` attachments on its `int` counter is negative, the attachment
slots stay uninitialised and the behaviour is undefined. -/
def prepareIovecs (garbage : ℕ → UInt8) (md : MsgDesc μ) : Option (List SendVec) :=
  if md.attachMems.length < 2 ^ 31 then
    (makeRpcMessage garbage md).map fun iov =>
      iov :: md.attachMems.map SendVec.ofVec
  else none

def prepareReqIovecs (garbage : ℕ → UInt8) (md : MsgDesc μ) (cev : EventId) (reqId : UInt32) :
    Option (List SendVec) :=
  (prepareIovecs garbage md).map fun iovs =>
    let cbp : CbParam :=
      { cev := some cev, reqId := reqId, fileOffset := md.attachFileOffset,
        fileLen := md.attachFileLen, filePath := strncpyPath md.attachFilePath }
    iovs.modify md.attachMems.length (SendVec.setCallback cbp)

def prepareRespIovecs (garbage : ℕ → UInt8) (md : MsgDesc μ) (cev : EventId) :
    Option (List SendVec) :=
  (prepareIovecs garbage md).map fun iovs =>
    let cbp : CbParam := { cev := some cev }
    iovs.modify md.attachMems.length (SendVec.setCallback cbp)

/-- The part of `sendCallback` before it turns to the event: the bytes of the file it puts on the
connection, and the state it goes on with. -/
def sendCallbackFile (files : Files) (cbParam : Option CbParam) (state : VecState) :
    List UInt8 × VecState :=
  match cbParam with
  | none => ([], state)
  | some cbp =>
    if state = .DONE ∧ cbp.fileLen ≠ 0 then
      let (sent, sendCount) :=
        Sock.sendfile files cbp.filePath cbp.fileOffset.toNat cbp.fileLen.toNat
      (sent, if sendCount ≠ cbp.fileLen.toNat then .ERROR else state)
    else ([], state)

/-- What a batch puts on the connection when its vectors complete with `DONE` in queue order. -/
def wire (files : Files) (iovs : List SendVec) : List UInt8 :=
  iovs.flatMap fun v => v.base.take v.size ++ (sendCallbackFile files v.cbParam .DONE).1

/-- Which side sends the frame. -/
inductive FrameKind where
  | request (cev : EventId) (reqId : UInt32)
  | response (cev : EventId)

def prepareFrame (garbage : ℕ → UInt8) (md : MsgDesc μ) : FrameKind → Option (List SendVec)
  | .request cev reqId => prepareReqIovecs garbage md cev reqId
  | .response cev => prepareRespIovecs garbage md cev

/-! ## The attachment total -/

/-- The sizes of the attachments added up. -/
def attTotal (vs : List VecT) : ℕ := (vs.map fun v => v.size.toInt.toNat).sum

@[simp] theorem attTotal_nil : attTotal [] = 0 := rfl

@[simp] theorem attTotal_cons (v : VecT) (vs : List VecT) :
    attTotal (v :: vs) = v.size.toInt.toNat + attTotal vs := rfl

theorem attTotal_le (vs : List VecT) : attTotal vs ≤ vs.length * 2 ^ 31 := by
  induction vs with
  | nil => simp
  | cons v vs ih =>
    have := v.size.toInt_lt
    rw [attTotal_cons, List.length_cons, Nat.succ_mul]
    omega

theorem attTotal_append (vs us : List VecT) : attTotal (vs ++ us) = attTotal vs + attTotal us := by
  unfold attTotal
  rw [List.map_append, List.sum_append]

theorem attTotal_replicate (n : ℕ) (v : VecT) :
    attTotal (List.replicate n v) = n * v.size.toInt.toNat := by
  unfold attTotal
  rw [List.map_replicate, List.sum_replicate]
  rfl

theorem attTotal_take_le (vs : List VecT) (n : ℕ) : attTotal (vs.take n) ≤ attTotal vs := by
  conv_rhs => rw [← List.take_append_drop n vs, attTotal_append]
  exact Nat.le_add_right _ _

theorem toInt_foldl_size (vs : List VecT) (h : ∀ v ∈ vs, 0 ≤ v.size.toInt) (a : Int32) :
    (vs.foldl (fun attLen v => attLen + v.size) a).toInt
      = (a.toInt + attTotal vs).bmod (2 ^ 32) := by
  induction vs generalizing a with
  | nil => simp
  | cons v vs ih =>
    have hv : v.size.toInt = v.size.toInt.toNat := (Int.toNat_of_nonneg (h v (by simp))).symm
    rw [List.foldl_cons, ih (fun w hw => h w (by simp [hw])), Int32.toInt_add, attTotal_cons]
    rw [hv]
    simp [Int.add_assoc]

/-- The `int` total, widened for the header, is the true one exactly below `2 ^ 31`. -/
theorem attLenOf_eq_attTotal_iff {vs : List VecT} (h : ∀ v ∈ vs, 0 ≤ v.size.toInt)
    (hn : vs.length < 2 ^ 31) :
    (attLenOf vs).toInt64.toUInt64.toNat = attTotal vs ↔ attTotal vs < 2 ^ 31 := by
  have hle := attTotal_le vs
  have hsum : (attLenOf vs).toInt = (attTotal vs : ℤ).bmod (2 ^ 32) := by
    simpa [attLenOf] using toInt_foldl_size vs h 0
  have hext := toNat_toUInt64_toInt64 (attLenOf vs)
  rw [Int.bmod_def] at hsum
  split_ifs at hsum hext <;> omega

theorem attTotal_eq_length {vs : List VecT} (h : ∀ v ∈ vs, v.Filled) :
    attTotal vs = (vs.flatMap VecT.base).length := by
  induction vs with
  | nil => rfl
  | cons v vs ih =>
    have hv : v.size.toInt = v.base.length := h v (by simp)
    rw [attTotal_cons, List.flatMap_cons, List.length_append, ih fun w hw => h w (by simp [hw]), hv,
      Int.toNat_natCast]

omit [Serializable μ] in
/-- The announced attachment length is the true one exactly below `2 ^ 31` bytes. -/
theorem attLenOf_eq_iff (md : SendDesc μ) (hn : md.attachMems.length < 2 ^ 31) :
    (attLenOf md.attachMems).toInt64.toUInt64.toNat = md.attBytes.length
      ↔ md.attBytes.length < 2 ^ 31 := by
  have h : ∀ v ∈ md.attachMems, 0 ≤ v.size.toInt := fun v hv => (md.filled v hv).nonneg
  rw [SendDesc.attBytes, ← attTotal_eq_length md.filled]
  exact attLenOf_eq_attTotal_iff h hn

theorem ofVec_size_of_nonneg {v : VecT} (h : 0 ≤ v.size.toInt) (a : AllocT) :
    (IoVec.ofVec v a).size = v.size.toInt.toNat := by
  have hext := toNat_toUInt64_toInt64 v.size
  rw [if_pos h] at hext
  simp only [IoVec.ofVec]
  omega

theorem ofVec_size {v : VecT} (h : v.Filled) (a : AllocT) :
    (IoVec.ofVec v a).size = v.base.length := by
  rw [ofVec_size_of_nonneg h.nonneg, show v.size.toInt = v.base.length from h, Int.toNat_natCast]

/-! ## What a batch puts on the connection -/

theorem wire_cons (files : Files) (v : SendVec) (vs : List SendVec) :
    wire files (v :: vs)
      = v.base.take v.size ++ (sendCallbackFile files v.cbParam .DONE).1 ++ wire files vs := rfl

/-- A batch with the parameter on its last vector is the bytes of its buffers, then the file. -/
theorem wire_modify_last (files : Files) (cbp : CbParam) (vs : List VecT)
    (hvs : ∀ v ∈ vs, v.Filled) (v : SendVec) (hv : v.cbParam = none) :
    wire files ((v :: vs.map SendVec.ofVec).modify vs.length (SendVec.setCallback cbp))
      = v.base.take v.size ++ vs.flatMap VecT.base
        ++ (sendCallbackFile files (some cbp) .DONE).1 := by
  induction vs generalizing v with
  | nil => simp [SendVec.setCallback, wire]
  | cons w vs ih =>
    have hw : (SendVec.ofVec w).base.take (SendVec.ofVec w).size = w.base := by
      simp only [SendVec.ofVec, ofVec_size (hvs w (by simp))]
      exact List.take_length
    rw [List.map_cons, List.length_cons, List.modify_succ_cons, wire_cons,
      ih (fun u hu => hvs u (by simp [hu])) _ rfl, hv, hw]
    simp [sendCallbackFile]

theorem sendCallbackFile_some (files : Files) (cbp : CbParam) :
    (sendCallbackFile files (some cbp) .DONE).1
      = if cbp.fileLen = 0 then []
        else match files cbp.filePath with
          | none => []
          | some file => fileSlice file cbp.fileOffset.toNat cbp.fileLen.toNat := by
  by_cases h : cbp.fileLen = 0
  · simp [sendCallbackFile, h]
  · rcases hf : files cbp.filePath with _ | file <;>
      simp [sendCallbackFile, h, Sock.sendfile, hf, Sock.sendfileLoop_eq]

end Longda
