import Longda.Comm.MsgDesc

/-!
# Memory vectors and their callback parameter

An `IoVec` is the unit of work of a connection: a buffer, its size, how much of it is transferred
and who owns the buffer. `base` lists the bytes of the buffer that are known: all of them in a
vector to be sent, those received so far in a vector to be received into. `CbParam` is the
parameter its callback is given (`cb_param_t`), without the two pointers to the connection and the
stage, of which the model has one each.
-/

namespace Longda

abbrev EventId := ℕ

/-- `IoVec::alloc_t`. -/
inductive AllocT where
  | SYS_ALLOC
  | USER_ALLOC
  deriving DecidableEq, Repr

/-- `IoVec::state_t`. -/
inductive VecState where
  | DONE
  | ERROR
  | CLEANUP
  deriving DecidableEq, Repr

structure IoVec where
  base : List UInt8
  size : ℕ
  xferred : ℕ := 0
  alloc : AllocT
  deriving DecidableEq, Repr

namespace IoVec

def remain (iov : IoVec) : ℕ := iov.size - iov.xferred

def done (iov : IoVec) : Bool := iov.xferred == iov.size

/-- The constructor from a `vec_t`: the `int` size becomes a `size_t`. -/
def ofVec (vec : VecT) (alloc : AllocT) : IoVec where
  base := vec.base
  size := vec.size.toInt64.toUInt64.toNat
  alloc := alloc

/-- `reset`, `setBase` with a fresh buffer and `setSize`. -/
def renew (iov : IoVec) (size : ℕ) : IoVec := { iov with base := [], size := size, xferred := 0 }

/-- The vector with all its bytes received. -/
def fill (iov : IoVec) (data : List UInt8) : IoVec :=
  { iov with base := data, xferred := data.length }

@[simp] theorem renew_size (iov : IoVec) (n : ℕ) : (iov.renew n).size = n := rfl
@[simp] theorem renew_xferred (iov : IoVec) (n : ℕ) : (iov.renew n).xferred = 0 := rfl
@[simp] theorem renew_alloc (iov : IoVec) (n : ℕ) : (iov.renew n).alloc = iov.alloc := rfl
@[simp] theorem fill_size (iov : IoVec) (d : List UInt8) : (iov.fill d).size = iov.size := rfl
@[simp] theorem fill_base (iov : IoVec) (d : List UInt8) : (iov.fill d).base = d := rfl
@[simp] theorem fill_alloc (iov : IoVec) (d : List UInt8) : (iov.fill d).alloc = iov.alloc := rfl
@[simp] theorem fill_fill (iov : IoVec) (d e : List UInt8) : (iov.fill d).fill e = iov.fill e := rfl
@[simp] theorem ofVec_alloc (v : VecT) (a : AllocT) : (ofVec v a).alloc = a := rfl
@[simp] theorem ofVec_xferred (v : VecT) (a : AllocT) : (ofVec v a).xferred = 0 := rfl

end IoVec

/-- `FILENAME_LENGTH_MAX`. -/
def FILENAME_LENGTH_MAX : ℕ := 256

/-- `cb_param_t`; the default is what `memset` to zero leaves. -/
structure CbParam where
  cev : Option EventId := none
  eventDone : Bool := false
  reqId : UInt32 := 0
  remainVecs : UInt32 := 0
  attLen : UInt32 := 0
  fileLen : UInt64 := 0
  fileOffset : UInt64 := 0
  filePath : Path := []
  drainLen : UInt64 := 0
  deriving DecidableEq, Repr

/-- `c_str()` as a C function reads it. -/
def cStr (s : Path) : Path := s.takeWhile (· ≠ 0)

/-- `strncpy(cbp->filePath, s.c_str(), sizeof(cbp->filePath) - 1)` into a zeroed field. -/
def strncpyPath (s : Path) : Path := (cStr s).take (FILENAME_LENGTH_MAX - 1)

end Longda
