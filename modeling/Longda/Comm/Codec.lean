import Longda.Comm.EndPoint

/-!
# Requests and responses as bytes

`Request` and `Response` are written as the header of every message, then their own members:
132 and 148 bytes. `CSimpleDeserializer.deserialize` looks at the type at the front and reads the
one or the other. A message comes back from its bytes with its strings as they were (`round_trip`),
and one that was read comes back as it is.
-/

namespace Longda

open Lib

def MESSAGE_BASIC_REQUEST : Int32 := 1000
def MESSAGE_BASIC_RESPONSE : Int32 := -1000

/-- The members of the class `Message`, but for the type that each class fixes. -/
@[ext] structure MessageBase where
  mVersion : UInt32
  mId : UInt64
  deriving DecidableEq

namespace MessageBase

def getSerialSize : ℕ := 4 + 4 + 8

def bytes (mType : Int32) (m : MessageBase) : List UInt8 :=
  [s32Bytes mType, leBytes 4 m.mVersion.toNat, leBytes 8 m.mId.toNat].flatten

@[simp] theorem length_bytes (mType : Int32) (m : MessageBase) :
    (m.bytes mType).length = getSerialSize := by
  simp [bytes, getSerialSize]

/-- `Message::serialize` of an object whose own class has the size `size`. -/
def serialize (size : ℕ) (mType : Int32) (m : MessageBase) (buffer : List UInt8) (bufferLen : ℤ) :
    ℤ × List UInt8 :=
  if bufferLen < size then (-1, buffer)
  else (0, pokes 0 [s32Bytes mType, leBytes 4 m.mVersion.toNat, leBytes 8 m.mId.toNat] buffer)

theorem serialize_eq {size : ℕ} {mType : Int32} {m : MessageBase} {buffer : List UInt8}
    {bufferLen : ℤ} (hlen : (size : ℤ) ≤ bufferLen) (hbuf : getSerialSize ≤ buffer.length) :
    m.serialize size mType buffer bufferLen = (0, poke 0 (m.bytes mType) buffer) := by
  rw [serialize, if_neg (not_lt.2 hlen)]
  refine congrArg (Prod.mk _) (pokes_eq ?_)
  have := m.length_bytes mType
  unfold bytes at this
  omega

/-- `Message::deserialize` of an object whose own class has the size `size`. -/
def deserialize (size : ℕ) (bufferLen : ℤ) : Peek (Option MessageBase) :=
  if bufferLen < size then pure none
  else do
    let version ← Peek.bytes 4 4
    let id ← Peek.bytes 8 8
    pure (some { mVersion := UInt32.ofNat (leNat version), mId := UInt64.ofNat (leNat id) })

theorem val_deserialize {m : MessageBase} {mType : Int32} {size : ℕ} {bufferLen : ℤ}
    {mem : ℕ → UInt8} (h : HasAt mem 0 (m.bytes mType)) (hlen : (size : ℤ) ≤ bufferLen) :
    (deserialize size bufferLen).val mem = some m := by
  simp only [bytes, List.flatten_cons, List.flatten_nil, List.append_nil, hasAt_append,
    length_s32Bytes, length_leBytes] at h
  obtain ⟨-, hver, hid⟩ := h
  have hver' : (Peek.bytes 4 4).val mem = leBytes 4 m.mVersion.toNat := by
    simpa [HasAt] using hver
  have hid' : (Peek.bytes 8 8).val mem = leBytes 8 m.mId.toNat := by
    simpa [HasAt] using hid
  have h₁ : m.mVersion.toNat < 256 ^ 4 := m.mVersion.toNat_lt
  have h₂ : m.mId.toNat < 256 ^ 8 := m.mId.toNat_lt
  rw [deserialize, if_neg (not_lt.2 hlen)]
  simp only [Peek.val_bind, Peek.val_pure, hver', hid', leNat_leBytes, Nat.mod_eq_of_lt h₁,
    Nat.mod_eq_of_lt h₂, UInt32.ofNat_toNat, UInt64.ofNat_toNat]

theorem within_deserialize (size : ℕ) (bufferLen : ℤ) :
    (deserialize size bufferLen).Within 4 getSerialSize := by
  unfold deserialize
  split_ifs
  · exact Peek.within_pure
  · exact ((Peek.within_bytes _ _).mono (by omega) (by decide)).bind fun _ =>
      ((Peek.within_bytes _ _).mono (by omega) (by decide)).bind fun _ => Peek.within_pure

end MessageBase

def MAX_PROTOCAL_LEN : ℕ := 32

@[ext] structure Request extends MessageBase where
  mSourceEp : EndPoint
  mProtocal : Chars MAX_PROTOCAL_LEN
  deriving DecidableEq

namespace Request

def getSerialSize : ℕ := MessageBase.getSerialSize + EndPoint.getSerialSize + MAX_PROTOCAL_LEN

def serialize (r : Request) (buffer : List UInt8) (bufferLen : ℤ) : ℤ × List UInt8 :=
  if bufferLen < getSerialSize then (-1, buffer)
  else
    let temp := MessageBase.getSerialSize
    let buffer := (r.toMessageBase.serialize getSerialSize MESSAGE_BASIC_REQUEST buffer bufferLen).2
    let buffer := (r.mSourceEp.serialize temp buffer (bufferLen - MessageBase.getSerialSize)).2
    let temp := temp + EndPoint.getSerialSize
    let buffer := poke temp (strncpy MAX_PROTOCAL_LEN r.mProtocal.chars) buffer
    (0, poke (temp + (MAX_PROTOCAL_LEN - 1)) [0] buffer)

/-- `deserialize` into an object; what returns `-1` leaves its part of the object as it is. -/
def deserialize (r : Request) (bufferLen : ℤ) : Peek (Option Request) :=
  if bufferLen < getSerialSize then pure none
  else do
    let base ← MessageBase.deserialize getSerialSize bufferLen
    let temp := MessageBase.getSerialSize
    let ep ← EndPoint.deserialize temp (bufferLen - MessageBase.getSerialSize)
    let temp := temp + EndPoint.getSerialSize
    let protocal ← Peek.strncpy temp MAX_PROTOCAL_LEN
    pure (some
      { toMessageBase := base.getD r.toMessageBase
        mSourceEp := ep.getD r.mSourceEp
        mProtocal := Chars.cut protocal })

def bytes (r : Request) : List UInt8 :=
  r.toMessageBase.bytes MESSAGE_BASIC_REQUEST ++ r.mSourceEp.bytes
    ++ (Chars.cut r.mProtocal.chars : Chars 32).chars

@[simp] theorem length_bytes (r : Request) : r.bytes.length = getSerialSize := by
  simp [bytes, getSerialSize, Chars.length_chars, MAX_PROTOCAL_LEN, Nat.add_assoc]

theorem serialize_eq {r : Request} {buffer : List UInt8} {bufferLen : ℤ}
    (hlen : (getSerialSize : ℤ) ≤ bufferLen) (hbuf : getSerialSize ≤ buffer.length) :
    r.serialize buffer bufferLen = (0, poke 0 r.bytes buffer) := by
  have hsize : getSerialSize = 132 := rfl
  have hm : (r.toMessageBase.bytes MESSAGE_BASIC_REQUEST).length = 16 :=
    MessageBase.length_bytes _ _
  have he : r.mSourceEp.bytes.length = 84 := EndPoint.length_bytes _
  have hp : (strncpy MAX_PROTOCAL_LEN r.mProtocal.chars).length = 32 := length_strncpy _ _
  have hl : (poke 0 (r.toMessageBase.bytes MESSAGE_BASIC_REQUEST) buffer).length = buffer.length :=
    length_poke (by omega)
  have hep : (r.mSourceEp.serialize 16 (poke 0 (r.toMessageBase.bytes MESSAGE_BASIC_REQUEST) buffer)
      (bufferLen - 16)).2 = poke 0 (r.toMessageBase.bytes MESSAGE_BASIC_REQUEST
        ++ r.mSourceEp.bytes) buffer := by
    have hsize' : EndPoint.getSerialSize = 84 := rfl
    rw [EndPoint.serialize_eq (by omega) (by omega)]
    exact poke_poke (by omega) (by omega)
  have hlen' : (poke 0 (r.toMessageBase.bytes MESSAGE_BASIC_REQUEST ++ r.mSourceEp.bytes)
      buffer).length = buffer.length := length_poke (by rw [List.length_append]; omega)
  rw [serialize, if_neg (not_lt.2 hlen)]
  refine congrArg (Prod.mk 0) ?_
  simp only [MessageBase.serialize_eq hlen (le_trans (by decide) hbuf)]
  change poke (100 + 31) [0] (poke 100 _ (r.mSourceEp.serialize 16 _ (bufferLen - 16)).2) = _
  rw [hep, poke_last hp (by omega), bytes]
  exact poke_poke (by rw [List.length_append]; omega) (by omega)

/-- The request with each array as it is after a copy. -/
def normal (r : Request) : Request where
  toMessageBase := r.toMessageBase
  mSourceEp := r.mSourceEp.normal
  mProtocal := (Chars.ofString r.mProtocal.chars : Chars 32)

theorem normal_normal (r : Request) : r.normal.normal = r.normal :=
  Request.ext rfl rfl (EndPoint.normal_normal _) (Chars.ofString_ofString _)

theorem val_deserialize {r s : Request} {bufferLen : ℤ} {mem : ℕ → UInt8}
    (h : HasAt mem 0 r.bytes) (hlen : (getSerialSize : ℤ) ≤ bufferLen) :
    (s.deserialize bufferLen).val mem = some r.normal := by
  have hsize : getSerialSize = 132 := rfl
  simp only [bytes, hasAt_append, MessageBase.length_bytes, List.length_append,
    EndPoint.length_bytes, Nat.zero_add] at h
  obtain ⟨⟨hbase, hep⟩, hprot⟩ := h
  have hlen' : (EndPoint.getSerialSize : ℤ) ≤ bufferLen - MessageBase.getSerialSize := by
    have h₁ : EndPoint.getSerialSize = 84 := rfl
    have h₂ : MessageBase.getSerialSize = 16 := rfl
    omega
  rw [deserialize, if_neg (not_lt.2 hlen)]
  simp only [Peek.val_bind, Peek.val_pure, MessageBase.val_deserialize hbase hlen,
    EndPoint.val_deserialize hep hlen', Option.getD_some]
  exact congrArg some (Request.ext rfl rfl rfl (Chars.cut_val_strncpy hprot))

theorem normal_of_deserialize {r s : Request} {bufferLen : ℤ} {mem : ℕ → UInt8}
    (h : (s.deserialize bufferLen).val mem = some r) : r.normal = r := by
  unfold deserialize at h
  split_ifs at h with hlen
  · cases h
  · have hlen' : (EndPoint.getSerialSize : ℤ) ≤ bufferLen - MessageBase.getSerialSize := by
      have h₁ : EndPoint.getSerialSize = 84 := rfl
      have h₂ : MessageBase.getSerialSize = 16 := rfl
      have h₃ : getSerialSize = 132 := rfl
      omega
    obtain ⟨ep, hep, hnormal⟩ :=
      EndPoint.normal_of_deserialize MessageBase.getSerialSize mem hlen'
    simp only [Peek.val_bind, Peek.val_pure, hep, Option.getD_some, Option.some.injEq] at h
    subst h
    refine Request.ext rfl rfl hnormal ?_
    simp only [normal, Chars.cut_eq_ofString (n := 31)]
    exact Chars.ofString_ofString _

theorem within_deserialize (r : Request) (bufferLen : ℤ) :
    (r.deserialize bufferLen).Within 0 getSerialSize := by
  unfold deserialize
  split_ifs
  · exact Peek.within_pure
  · refine ((MessageBase.within_deserialize _ _).mono (by omega) (by decide)).bind fun _ =>
      ((EndPoint.within_deserialize _ _).mono (by omega) (by decide)).bind fun _ =>
      ((Peek.within_strncpy _ _).mono (by omega) (by decide)).bind fun _ => Peek.within_pure

end Request

def MAX_ERROR_MSG_LEN : ℕ := 128

@[ext] structure Response extends MessageBase where
  mStatus : Int32
  mErrMsg : Chars MAX_ERROR_MSG_LEN
  deriving DecidableEq

namespace Response

def getSerialSize : ℕ := MessageBase.getSerialSize + 4 + MAX_ERROR_MSG_LEN

def serialize (r : Response) (buffer : List UInt8) (bufferLen : ℤ) : ℤ × List UInt8 :=
  if bufferLen < getSerialSize then (-1, buffer)
  else
    let temp := MessageBase.getSerialSize
    let buffer :=
      (r.toMessageBase.serialize getSerialSize MESSAGE_BASIC_RESPONSE buffer bufferLen).2
    let buffer := pokes temp [s32Bytes r.mStatus, strncpy MAX_ERROR_MSG_LEN r.mErrMsg.chars] buffer
    (0, poke (temp + 4 + (MAX_ERROR_MSG_LEN - 1)) [0] buffer)

def deserialize (r : Response) (bufferLen : ℤ) : Peek (Option Response) :=
  if bufferLen < getSerialSize then pure none
  else do
    let base ← MessageBase.deserialize getSerialSize bufferLen
    let temp := MessageBase.getSerialSize
    let status ← Peek.bytes temp 4
    let errMsg ← Peek.strncpy (temp + 4) MAX_ERROR_MSG_LEN
    pure (some
      { toMessageBase := base.getD r.toMessageBase
        mStatus := s32OfBytes status
        mErrMsg := Chars.cut errMsg })

def bytes (r : Response) : List UInt8 :=
  r.toMessageBase.bytes MESSAGE_BASIC_RESPONSE ++ s32Bytes r.mStatus
    ++ (Chars.cut r.mErrMsg.chars : Chars 128).chars

@[simp] theorem length_bytes (r : Response) : r.bytes.length = getSerialSize := by
  simp [bytes, getSerialSize, Chars.length_chars, MAX_ERROR_MSG_LEN, Nat.add_assoc]

theorem serialize_eq {r : Response} {buffer : List UInt8} {bufferLen : ℤ}
    (hlen : (getSerialSize : ℤ) ≤ bufferLen) (hbuf : getSerialSize ≤ buffer.length) :
    r.serialize buffer bufferLen = (0, poke 0 r.bytes buffer) := by
  have hsize : getSerialSize = 148 := rfl
  have hm : (r.toMessageBase.bytes MESSAGE_BASIC_RESPONSE).length = 16 :=
    MessageBase.length_bytes _ _
  have hs : (s32Bytes r.mStatus).length = 4 := length_s32Bytes _
  have hp : (strncpy MAX_ERROR_MSG_LEN r.mErrMsg.chars).length = 128 := length_strncpy _ _
  have hl : (poke 0 (r.toMessageBase.bytes MESSAGE_BASIC_RESPONSE) buffer).length = buffer.length :=
    length_poke (by omega)
  have hjoin : poke 16 (s32Bytes r.mStatus)
      (poke 0 (r.toMessageBase.bytes MESSAGE_BASIC_RESPONSE) buffer)
        = poke 0 (r.toMessageBase.bytes MESSAGE_BASIC_RESPONSE ++ s32Bytes r.mStatus) buffer :=
    poke_poke (by omega) (by omega)
  have hlen' : (poke 0 (r.toMessageBase.bytes MESSAGE_BASIC_RESPONSE ++ s32Bytes r.mStatus)
      buffer).length = buffer.length := length_poke (by rw [List.length_append]; omega)
  rw [serialize, if_neg (not_lt.2 hlen)]
  refine congrArg (Prod.mk 0) ?_
  simp only [MessageBase.serialize_eq hlen (le_trans (by decide) hbuf), pokes, hs]
  change poke (20 + 127) [0] (poke 20 _ (poke 16 _ _)) = _
  rw [hjoin, poke_last hp (by omega), bytes]
  exact poke_poke (by rw [List.length_append]; omega) (by omega)

/-- The response with its array as it is after a copy. -/
def normal (r : Response) : Response :=
  { r with mErrMsg := (Chars.ofString r.mErrMsg.chars : Chars 128) }

theorem normal_normal (r : Response) : r.normal.normal = r.normal :=
  Response.ext rfl rfl rfl (Chars.ofString_ofString _)

theorem val_deserialize {r s : Response} {bufferLen : ℤ} {mem : ℕ → UInt8}
    (h : HasAt mem 0 r.bytes) (hlen : (getSerialSize : ℤ) ≤ bufferLen) :
    (s.deserialize bufferLen).val mem = some r.normal := by
  simp only [bytes, hasAt_append, MessageBase.length_bytes, List.length_append,
    length_s32Bytes, Nat.zero_add] at h
  obtain ⟨⟨hbase, hstatus⟩, hmsg⟩ := h
  have hstatus' : (Peek.bytes MessageBase.getSerialSize 4).val mem = s32Bytes r.mStatus := hstatus
  rw [deserialize, if_neg (not_lt.2 hlen)]
  simp only [Peek.val_bind, Peek.val_pure, MessageBase.val_deserialize hbase hlen,
    hstatus', s32OfBytes_s32Bytes, Option.getD_some]
  exact congrArg some (Response.ext rfl rfl rfl (Chars.cut_val_strncpy hmsg))

theorem normal_of_deserialize {r s : Response} {bufferLen : ℤ} {mem : ℕ → UInt8}
    (h : (s.deserialize bufferLen).val mem = some r) : r.normal = r := by
  unfold deserialize at h
  split_ifs at h with hlen
  · cases h
  · simp only [Peek.val_bind, Peek.val_pure, Option.some.injEq] at h
    subst h
    refine Response.ext rfl rfl rfl ?_
    simp only [normal, Chars.cut_eq_ofString (n := 127)]
    exact Chars.ofString_ofString _

theorem within_deserialize (r : Response) (bufferLen : ℤ) :
    (r.deserialize bufferLen).Within 0 getSerialSize := by
  unfold deserialize
  split_ifs
  · exact Peek.within_pure
  · refine ((MessageBase.within_deserialize _ _).mono (by omega) (by decide)).bind fun _ =>
      ((Peek.within_bytes _ _).mono (by omega) (by decide)).bind fun _ =>
      ((Peek.within_strncpy _ _).mono (by omega) (by decide)).bind fun _ => Peek.within_pure

end Response

/-! ## Either message -/

inductive WireMessage where
  | request (r : Request)
  | response (r : Response)
  deriving DecidableEq

namespace WireMessage

def getSerialSize : WireMessage → ℕ
  | request _ => Request.getSerialSize
  | response _ => Response.getSerialSize

def serialize : WireMessage → List UInt8 → ℤ → ℤ × List UInt8
  | request r => r.serialize
  | response r => r.serialize

def bytes : WireMessage → List UInt8
  | request r => r.bytes
  | response r => r.bytes

def normal : WireMessage → WireMessage
  | request r => request r.normal
  | response r => response r.normal

/-- Every character array ends a string. -/
def Terminated : WireMessage → Prop
  | request r => r.mSourceEp.mHostName.Terminated ∧ r.mSourceEp.mLocation.Terminated
    ∧ r.mSourceEp.mService.Terminated ∧ r.mProtocal.Terminated
  | response r => r.mErrMsg.Terminated

/-- The same type, version, id, source end point, status and strings. -/
inductive Same : WireMessage → WireMessage → Prop
  | request {r s : Request} : r.toMessageBase = s.toMessageBase →
    r.mSourceEp.mHostName.str = s.mSourceEp.mHostName.str →
    r.mSourceEp.mLocation.str = s.mSourceEp.mLocation.str →
    r.mSourceEp.mService.str = s.mSourceEp.mService.str →
    r.mSourceEp.mPort = s.mSourceEp.mPort → r.mProtocal.str = s.mProtocal.str →
    Same (request r) (request s)
  | response {r s : Response} : r.toMessageBase = s.toMessageBase → r.mStatus = s.mStatus →
    r.mErrMsg.str = s.mErrMsg.str → Same (response r) (response s)

theorem length_bytes (m : WireMessage) : m.bytes.length = m.getSerialSize := by
  cases m
  · exact Request.length_bytes _
  · exact Response.length_bytes _

theorem normal_same {m : WireMessage} (hm : m.Terminated) : Same m.normal m := by
  cases m with
  | request r =>
    obtain ⟨h₁, h₂, h₃, h₄⟩ := hm
    exact .request rfl (Chars.str_ofString_of_terminated h₁) (Chars.str_ofString_of_terminated h₂)
      (Chars.str_ofString_of_terminated h₃) rfl (Chars.str_ofString_of_terminated h₄)
  | response r => exact .response rfl rfl (Chars.str_ofString_of_terminated hm)

theorem serialize_eq {m : WireMessage} {buffer : List UInt8} {bufferLen : ℤ}
    (hlen : (m.getSerialSize : ℤ) ≤ bufferLen) (hbuf : m.getSerialSize ≤ buffer.length) :
    m.serialize buffer bufferLen = (0, poke 0 m.bytes buffer) := by
  cases m
  · exact Request.serialize_eq hlen hbuf
  · exact Response.serialize_eq hlen hbuf

theorem serialize_short {m : WireMessage} {buffer : List UInt8} {bufferLen : ℤ}
    (hlen : bufferLen < m.getSerialSize) : m.serialize buffer bufferLen = (-1, buffer) := by
  cases m <;> exact if_pos hlen

end WireMessage

namespace CSimpleDeserializer

variable (newRequest : Request) (newResponse : Response)

/-- `CSimpleDeserializer::deserialize`, given what `new` makes of the two classes. -/
def deserialize (bufLen : ℤ) : Peek (Option WireMessage) := do
  let type ← Peek.bytes 0 4
  if s32OfBytes type = MESSAGE_BASIC_REQUEST then do
    let request ← newRequest.deserialize bufLen
    pure (request.map .request)
  else if s32OfBytes type = MESSAGE_BASIC_RESPONSE then do
    let response ← newResponse.deserialize bufLen
    pure (response.map .response)
  else pure none

variable {newRequest newResponse}

theorem type_of_hasAt {mType : Int32} {m : MessageBase} (bs : List UInt8) {mem : ℕ → UInt8}
    (h : HasAt mem 0 (m.bytes mType ++ bs)) : s32OfBytes ((Peek.bytes 0 4).val mem) = mType := by
  simp only [MessageBase.bytes, List.flatten_cons, hasAt_append] at h
  have htype : (Peek.bytes 0 4).val mem = s32Bytes mType := by
    simpa [HasAt] using h.1.1
  rw [htype, s32OfBytes_s32Bytes]

theorem val_deserialize {m : WireMessage} {bufLen : ℤ} {mem : ℕ → UInt8}
    (h : HasAt mem 0 m.bytes) (hlen : (m.getSerialSize : ℤ) ≤ bufLen) :
    (deserialize newRequest newResponse bufLen).val mem = some m.normal := by
  cases m with
  | request r =>
    have htype := type_of_hasAt
      (r.mSourceEp.bytes ++ (Chars.cut r.mProtocal.chars : Chars 32).chars)
      (by simpa only [WireMessage.bytes, Request.bytes, List.append_assoc] using h)
    simp only [deserialize, Peek.val_bind, Peek.val_pure, htype, if_true,
      Request.val_deserialize h hlen]
    rfl
  | response r =>
    have htype := type_of_hasAt
      (s32Bytes r.mStatus ++ (Chars.cut r.mErrMsg.chars : Chars 128).chars)
      (by simpa only [WireMessage.bytes, Response.bytes, List.append_assoc] using h)
    have hne : MESSAGE_BASIC_RESPONSE ≠ MESSAGE_BASIC_REQUEST := by decide
    simp only [deserialize, Peek.val_bind, Peek.val_pure, htype, if_neg hne, if_true,
      Response.val_deserialize h hlen]
    rfl

theorem normal_of_deserialize {m : WireMessage} {bufLen : ℤ} {mem : ℕ → UInt8}
    (h : (deserialize newRequest newResponse bufLen).val mem = some m) : m.normal = m := by
  simp only [deserialize, Peek.val_bind, Peek.val_ite, Peek.val_pure] at h
  split_ifs at h
  · obtain ⟨r, hr, rfl⟩ := Option.map_eq_some_iff.1 h
    exact congrArg _ (Request.normal_of_deserialize hr)
  · obtain ⟨r, hr, rfl⟩ := Option.map_eq_some_iff.1 h
    exact congrArg _ (Response.normal_of_deserialize hr)

/-- Whoever has the bytes that were written, and is told no less of them, reads the message. -/
theorem val_deserialize_written {m : WireMessage} {buffer : List UInt8} {bufferLen bufLen : ℤ}
    {mem : ℕ → UInt8} (hlen : (m.getSerialSize : ℤ) ≤ bufferLen)
    (hbuf : m.getSerialSize ≤ buffer.length)
    (hmem : HasAt mem 0 ((m.serialize buffer bufferLen).2.take m.getSerialSize))
    (hread : (m.getSerialSize : ℤ) ≤ bufLen) :
    (deserialize newRequest newResponse bufLen).val mem = some m.normal := by
  rw [WireMessage.serialize_eq hlen hbuf, poke_zero, ← m.length_bytes, List.take_left] at hmem
  exact val_deserialize hmem hread

/-- Serializing a message whose arrays are terminated fails exactly where the buffer is too short,
writes nothing behind its size, and what is read back is the same message; a message that was read
is read again as it is. -/
theorem round_trip (newRequest : Request) (newResponse : Response) :
    (∀ m : WireMessage, m.Terminated → ∀ (buffer : List UInt8) (bufferLen : Int32),
      bufferLen.toInt ≤ buffer.length →
        ((m.serialize buffer bufferLen.toInt).1 ≠ 0 ↔ bufferLen.toInt < m.getSerialSize)
        ∧ (m.serialize buffer bufferLen.toInt).2.length = buffer.length
        ∧ (m.serialize buffer bufferLen.toInt).2.drop m.getSerialSize
          = buffer.drop m.getSerialSize
        ∧ ((m.serialize buffer bufferLen.toInt).1 = 0 → ∀ (mem : ℕ → UInt8) (bufLen : Int32),
          HasAt mem 0 ((m.serialize buffer bufferLen.toInt).2.take m.getSerialSize) →
          m.getSerialSize ≤ bufLen.toInt →
          ∃ m', (deserialize newRequest newResponse bufLen.toInt).val mem = some m' ∧ m'.Same m))
    ∧ ∀ (m : WireMessage) (mem : ℕ → UInt8) (bufLen : Int32),
      (deserialize newRequest newResponse bufLen.toInt).val mem = some m →
      ∀ (buffer : List UInt8) (bufferLen : Int32), bufferLen.toInt ≤ buffer.length →
        m.getSerialSize ≤ bufferLen.toInt →
        (m.serialize buffer bufferLen.toInt).1 = 0
        ∧ ∀ (mem' : ℕ → UInt8) (bufLen' : Int32),
          HasAt mem' 0 ((m.serialize buffer bufferLen.toInt).2.take m.getSerialSize) →
          m.getSerialSize ≤ bufLen'.toInt →
          (deserialize newRequest newResponse bufLen'.toInt).val mem' = some m := by
  constructor
  · intro m hm buffer bufferLen hbuf
    rcases lt_or_ge bufferLen.toInt m.getSerialSize with hlen | hlen
    · rw [WireMessage.serialize_short hlen]
      exact ⟨by simpa using hlen, rfl, rfl, fun h => by cases h⟩
    · have hsize : m.getSerialSize ≤ buffer.length := by omega
      have hkeep : (m.serialize buffer bufferLen.toInt).2.drop m.getSerialSize
          = buffer.drop m.getSerialSize := by
        rw [WireMessage.serialize_eq hlen hsize, poke_zero, ← m.length_bytes, List.drop_left]
      refine ⟨?_, ?_, hkeep, fun _ mem bufLen hmem hread => ?_⟩
      · rw [WireMessage.serialize_eq hlen hsize]
        simpa using hlen
      · rw [WireMessage.serialize_eq hlen hsize]
        exact length_poke (by rw [m.length_bytes]; omega)
      · exact ⟨_, val_deserialize_written hlen hsize hmem hread, WireMessage.normal_same hm⟩
  · intro m mem bufLen hdec buffer bufferLen hbuf hlen
    have hsize : m.getSerialSize ≤ buffer.length := by omega
    refine ⟨by rw [WireMessage.serialize_eq hlen hsize], fun mem' bufLen' hmem hread => ?_⟩
    rw [val_deserialize_written hlen hsize hmem hread, normal_of_deserialize hdec]

/-- A request without a word, and a response that says no. -/
def sampleRequest : Request where
  mVersion := 1
  mId := 7
  mSourceEp :=
    { mHostName := (Chars.ofString [] : Chars 32), mLocation := (Chars.ofString [] : Chars 32)
      mService := (Chars.ofString [] : Chars 16), mPort := -1 }
  mProtocal := (Chars.ofString [] : Chars 32)

def sampleResponse : Response where
  mVersion := 1
  mId := 7
  mStatus := -2
  mErrMsg := (Chars.ofString [110, 111] : Chars 128)

theorem round_trip_response :
    ∃ m', (deserialize sampleRequest sampleResponse (148 : Int32).toInt).val
        (fun i => (((WireMessage.response sampleResponse).serialize (List.replicate 148 0)
          (148 : Int32).toInt).2.take 148).getD i 0) = some m'
      ∧ m'.Same (.response sampleResponse) := by
  have hterm : (WireMessage.response sampleResponse).Terminated := by
    change (cString (strncpy 127 [110, 111] ++ [0])).length < 128
    decide
  have hlen : ((148 : Int32).toInt : ℤ) ≤ (List.replicate 148 (0 : UInt8)).length := by
    rw [List.length_replicate]
    decide
  have hfree := ((round_trip sampleRequest sampleResponse).1 (.response sampleResponse) hterm
    (List.replicate 148 0) 148 hlen).2.2.2
  refine hfree ?_ _ 148 (hasAt_getD _) (by decide)
  rw [WireMessage.serialize_eq (by decide) (by rw [List.length_replicate]; decide)]

end CSimpleDeserializer

end Longda
