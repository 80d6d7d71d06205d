import Mathlib.Data.List.Basic
import Mathlib.Algebra.Order.BigOperators.Group.List
import Mathlib.Algebra.Order.Group.Nat

/-!
# Message descriptors

A `MsgDesc` gathers what one frame carries: the message, the memory attachments and the attached
file. An attachment is an `IoVec::vec_t`, a buffer and its size, which is an `int`. A descriptor
to be sent is `Filled`: each buffer holds as many bytes as its size says.
-/

namespace Longda

/-- A C string or a `std::string`, as its characters without the terminator. -/
abbrev Path := List UInt8

/-- `IoVec::vec_t`. -/
structure VecT where
  base : List UInt8
  size : Int32
  deriving DecidableEq, Repr

/-- The buffer holds as many bytes as the size says. -/
def VecT.Filled (v : VecT) : Prop := v.size.toInt = v.base.length

theorem VecT.Filled.nonneg {v : VecT} (h : v.Filled) : 0 ≤ v.size.toInt := by
  unfold VecT.Filled at h
  omega

/-- What a message type offers to be sent. `serialize` writes into the buffer it is given. -/
class Serializable (μ : Type*) where
  getSerialSize : μ → ℕ
  getSerialSize_lt : ∀ m, getSerialSize m < 2 ^ 31
  serialize : μ → List UInt8 → Option (List UInt8)
  length_serialize : ∀ {m buffer out}, serialize m buffer = some out → out.length = buffer.length

structure MsgDesc (μ : Type*) where
  message : Option μ := none
  attachMems : List VecT := []
  attachFileOffset : UInt64 := 0
  attachFileLen : UInt64 := 0
  attachFilePath : Path := []

/-- A descriptor whose attachment buffers are filled. -/
structure SendDesc (μ : Type*) extends MsgDesc μ where
  filled : ∀ v ∈ attachMems, v.Filled

namespace SendDesc

variable {μ : Type*} (md : SendDesc μ)

/-- The attachment bytes, in order. -/
def attBytes : List UInt8 := md.attachMems.flatMap VecT.base

end SendDesc

end Longda
