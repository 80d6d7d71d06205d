import Longda.Comm.Codec

/-!
# What is read of a received body

In the `MESSAGE` state the body is handed to the deserializer with its length as an `int`, and
where that fails, to `sendBadMsgErr` without a length. The deserializer is one that looks at the
length before it reads the type. All it reads is body (`within_deserialize`); `sendBadMsgErr` reads
the id wherever it should be, which is body from 16 bytes on (`reads_body_iff`).
-/

namespace Longda

open Lib

variable (newRequest : Request) (newResponse : Response)

namespace CSimpleDeserializer

/-- `deserialize` behind a check of the length. -/
def deserializeChecked (bufLen : ℤ) : Peek (Option WireMessage) :=
  if bufLen < 4 then pure none else deserialize newRequest newResponse bufLen

end CSimpleDeserializer

/-- The part of `sendBadMsgErr` that reads the body, for the id of the request. -/
def badMsgId : Peek (Option UInt64) := do
  let req ← MessageBase.deserialize MessageBase.getSerialSize MessageBase.getSerialSize
  pure (req.map MessageBase.mId)

/-- `(int)iov->getSize()`. -/
def intSize (size : UInt64) : ℤ := size.toUInt32.toInt32.toInt

/-- The part of `recvCallback` for the `MESSAGE` state that reads the body: the message, or the id
for the error response. -/
def readBody (size : UInt64) : Peek (WireMessage ⊕ Option UInt64) := do
  let msg ← CSimpleDeserializer.deserializeChecked newRequest newResponse (intSize size)
  match msg with
  | some m => pure (.inl m)
  | none => do
    let id ← badMsgId
    pure (.inr id)

variable {newRequest newResponse}

theorem intSize_le (size : UInt64) : intSize size ≤ size.toNat := by
  have h₁ : size.toUInt32.toInt32.toInt ≤ size.toUInt32.toNat := by
    have : size.toUInt32.toInt32.toInt = size.toUInt32.toBitVec.toInt := rfl
    have hle : size.toUInt32.toBitVec.toInt ≤ (size.toUInt32.toBitVec.toNat : ℤ) := by
      rw [BitVec.toInt_eq_toNat_cond]
      split_ifs <;> omega
    exact this ▸ hle
  have h₂ : size.toUInt32.toNat ≤ size.toNat := by
    rw [UInt64.toNat_toUInt32]
    exact Nat.mod_le _ _
  unfold intSize
  omega

theorem Request.within_deserialize_len (r : Request) (bufLen : ℤ) :
    (r.deserialize bufLen).Within 0 bufLen.toNat := by
  by_cases h : bufLen < Request.getSerialSize
  · rw [Request.deserialize, if_pos h]
    exact Peek.within_pure
  · exact (r.within_deserialize bufLen).mono le_rfl (by omega)

theorem Response.within_deserialize_len (r : Response) (bufLen : ℤ) :
    (r.deserialize bufLen).Within 0 bufLen.toNat := by
  by_cases h : bufLen < Response.getSerialSize
  · rw [Response.deserialize, if_pos h]
    exact Peek.within_pure
  · exact (r.within_deserialize bufLen).mono le_rfl (by omega)

/-- The deserializer stays within the length it is told. -/
theorem within_deserialize (bufLen : ℤ) :
    (CSimpleDeserializer.deserializeChecked newRequest newResponse bufLen).Within 0
      bufLen.toNat := by
  unfold CSimpleDeserializer.deserializeChecked CSimpleDeserializer.deserialize
  split_ifs with h
  · exact Peek.within_pure
  · refine ((Peek.within_bytes 0 4).mono le_rfl (by omega)).bind fun type => ?_
    split_ifs
    · exact (Request.within_deserialize_len _ _).bind fun _ => Peek.within_pure
    · exact (Response.within_deserialize_len _ _).bind fun _ => Peek.within_pure
    · exact Peek.within_pure

theorem within_badMsgId : badMsgId.Within 0 16 :=
  ((MessageBase.within_deserialize _ _).mono (by omega) le_rfl).bind fun _ => Peek.within_pure

/-- No message is as short as the id is far. -/
theorem deserializeChecked_short (newRequest : Request) (newResponse : Response) {bufLen : ℤ}
    (h : bufLen < 16) (mem : ℕ → UInt8) :
    (CSimpleDeserializer.deserializeChecked newRequest newResponse bufLen).val mem = none := by
  have hreq : bufLen < (Request.getSerialSize : ℤ) := h.trans (by decide)
  have hrsp : bufLen < (Response.getSerialSize : ℤ) := h.trans (by decide)
  unfold CSimpleDeserializer.deserializeChecked CSimpleDeserializer.deserialize
  rw [Request.deserialize, Response.deserialize, if_pos hreq, if_pos hrsp]
  simp

theorem reads_badMsgId (mem : ℕ → UInt8) :
    badMsgId.reads mem = [4, 5, 6, 7, 8, 9, 10, 11, 12, 13, 14, 15] := rfl

/-- A body too short for the id is read beyond its end. -/
theorem reads_beyond (newRequest : Request) (newResponse : Response) {size : UInt64}
    (h : size.toNat < 16) (mem : ℕ → UInt8) :
    15 ∈ (readBody newRequest newResponse size).reads mem := by
  have hint := intSize_le size
  have hnone := deserializeChecked_short newRequest newResponse
    (by omega : intSize size < 16) mem
  simp only [readBody, Peek.reads_bind, hnone, List.mem_append]
  refine .inr (.inl ?_)
  rw [reads_badMsgId]
  decide

/-- Decoding stays inside the body exactly where the body is long enough for the id. -/
theorem reads_body_iff (newRequest : Request) (newResponse : Response) (size : UInt64)
    (mem : ℕ → UInt8) :
    (∀ i ∈ (readBody newRequest newResponse size).reads mem, i < size.toNat)
      ↔ 16 ≤ size.toNat := by
  constructor
  · intro h
    by_contra hlt
    exact hlt (Nat.succ_le_of_lt (h 15 (reads_beyond _ _ (by omega) mem)))
  · intro h i hi
    have hint := intSize_le size
    simp only [readBody, Peek.reads_bind, List.mem_append] at hi
    rcases hi with hi | hi
    · have := (within_deserialize (intSize size) mem i hi).2
      omega
    · rcases hm : (CSimpleDeserializer.deserializeChecked newRequest newResponse
        (intSize size)).val mem with _ | m
      · rw [hm] at hi
        have := (within_badMsgId.map mem i hi).2
        omega
      · rw [hm] at hi
        cases hi

/-- Of a body of one byte, the bytes up to the sixteenth are read. -/
theorem not_reads_body_one : ¬ ∀ i ∈ (readBody CSimpleDeserializer.sampleRequest
    CSimpleDeserializer.sampleResponse 1).reads fun _ => 0, i < (1 : UInt64).toNat :=
  fun h => absurd (h 15 (reads_beyond _ _ (by decide) _)) (by decide)

end Longda
