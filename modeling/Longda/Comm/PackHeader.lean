import Longda.Lib.LittleEndian
import Mathlib.Data.List.OfFn
import Mathlib.Data.Fintype.Basic
import Mathlib.Tactic.FinCases

/-!
# The package header

Every frame starts with a `PackHeader`: an eight-byte type and three unsigned 64-bit lengths, laid
out without padding. `PackHeader.decode` reads the bytes a header was written to
(`decode_encode`), which is what a cast of the receive buffer does.
-/

namespace Longda

open Lib

/-- `HDR_LEN`, which is also `sizeof(PackHeader)`. -/
def HDR_LEN : ℕ := 32

/-- `MSG_TYPE_RPC` with its terminator, the four bytes `recvHeaderCb` compares. -/
def MSG_TYPE_RPC : List UInt8 := [114, 112, 99, 0]

structure PackHeader where
  mType : Fin 8 → UInt8
  mMsgLen : UInt64
  mAttLen : UInt64
  mFileLen : UInt64

namespace PackHeader

def encode (h : PackHeader) : List UInt8 :=
  List.ofFn h.mType ++ leBytes 8 h.mMsgLen.toNat ++ leBytes 8 h.mAttLen.toNat
    ++ leBytes 8 h.mFileLen.toNat

def decode (bs : List UInt8) : PackHeader where
  mType i := bs.getD i 0
  mMsgLen := UInt64.ofNat (leNat ((bs.drop 8).take 8))
  mAttLen := UInt64.ofNat (leNat ((bs.drop 16).take 8))
  mFileLen := UInt64.ofNat (leNat ((bs.drop 24).take 8))

/-- `strncmp(hdr->mType, MSG_TYPE_RPC, sizeof(MSG_TYPE_RPC)) == 0`. -/
def isRpc (h : PackHeader) : Bool := (List.ofFn h.mType).take 4 == MSG_TYPE_RPC

/-- The bytes of the frame after its header, by the lengths the header announces. -/
def bodyLen (h : PackHeader) : ℕ := h.mMsgLen.toNat + h.mAttLen.toNat + h.mFileLen.toNat

@[simp] theorem length_encode (h : PackHeader) : h.encode.length = HDR_LEN := by
  simp [encode, HDR_LEN]

theorem ofNat_leNat_leBytes (n : UInt64) : UInt64.ofNat (leNat (leBytes 8 n.toNat)) = n := by
  have hlt : n.toNat < 256 ^ 8 := n.toNat_lt
  rw [leNat_leBytes, Nat.mod_eq_of_lt hlt, UInt64.ofNat_toNat]

theorem decode_encode_append (h : PackHeader) (rest : List UInt8) :
    decode (h.encode ++ rest) = h := by
  have hm : ((h.encode ++ rest).drop 8).take 8 = leBytes 8 h.mMsgLen.toNat := by
    simp [encode]
  have hd : (leBytes 8 h.mMsgLen.toNat).drop 16 = [] := List.drop_eq_nil_of_le (by simp)
  have ha : ((h.encode ++ rest).drop 16).take 8 = leBytes 8 h.mAttLen.toNat := by
    simp [encode]
  have hf : ((h.encode ++ rest).drop 24).take 8 = leBytes 8 h.mFileLen.toNat := by
    simp [encode, List.drop_append, hd]
  have ht : (fun i : Fin 8 => (h.encode ++ rest).getD i 0) = h.mType := by
    funext i
    fin_cases i <;> simp [encode]
  simp only [decode, hm, ha, hf, ht, ofNat_leNat_leBytes]

theorem decode_encode (h : PackHeader) : decode h.encode = h := by
  simpa using decode_encode_append h []

/-- The header at the front of a stream is determined by the stream. -/
theorem encode_append_inj {h h' : PackHeader} {rest rest' : List UInt8}
    (he : h.encode ++ rest = h'.encode ++ rest') : h = h' ∧ rest = rest' := by
  have hh : h = h' := by
    rw [← decode_encode_append h rest, he, decode_encode_append]
  subst hh
  exact ⟨rfl, List.append_cancel_left he⟩

end PackHeader

end Longda
