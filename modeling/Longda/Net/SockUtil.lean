import Longda.Net.IoVec

/-!
# Sending a file

`Sock::sendfile` opens the file and hands it to the kernel a gigabyte at a time. The kernel is
taken to transmit exactly the bytes asked of it, so a file that can be opened has a byte at every
offset asked for. The loop then sends the slice it was asked for (`sendfileLoop_eq`).
-/

namespace Longda

/-- The files `open` finds, each as its bytes by offset. -/
abbrev Files := Path → Option (ℕ → UInt8)

def fileSlice (file : ℕ → UInt8) (offset count : ℕ) : List UInt8 :=
  (List.range count).map fun i => file (offset + i)

@[simp] theorem length_fileSlice (file : ℕ → UInt8) (offset count : ℕ) :
    (fileSlice file offset count).length = count := by
  simp [fileSlice]

theorem fileSlice_add (file : ℕ → UInt8) (offset m n : ℕ) :
    fileSlice file offset (m + n) = fileSlice file offset m ++ fileSlice file (offset + m) n := by
  simp [fileSlice, List.range_add, Nat.add_assoc]

namespace Sock

def ONE_GIGA : ℕ := 1024 * 1024 * 1024

/-- The loop of `Sock::sendfile`: the bytes sent. Its error check compares the address of the
counter with zero, so it never leaves the loop early. -/
def sendfileLoop (file : ℕ → UInt8) (sendOffset remain : ℕ) : List UInt8 :=
  if remain = 0 then []
  else
    let sended := if remain > ONE_GIGA then ONE_GIGA else remain
    fileSlice file sendOffset sended ++ sendfileLoop file (sendOffset + sended) (remain - sended)
  termination_by remain
  decreasing_by
    have : 0 < ONE_GIGA := by decide
    split <;> omega

theorem sendfileLoop_eq (file : ℕ → UInt8) (sendOffset remain : ℕ) :
    sendfileLoop file sendOffset remain = fileSlice file sendOffset remain := by
  induction remain using Nat.strong_induction_on generalizing sendOffset with
  | _ remain ih =>
    have hg : 0 < ONE_GIGA := by decide
    rw [sendfileLoop]
    split_ifs with h0 h1
    · simp [h0, fileSlice]
    · simp only []
      rw [ih _ (by omega), ← fileSlice_add, Nat.add_sub_cancel' (by omega)]
    · simp only []
      rw [ih _ (by omega), ← fileSlice_add, Nat.add_sub_cancel' (by omega)]

/-- `Sock::sendfile`: the bytes put on the socket and the count reported. -/
def sendfile (files : Files) (filename : Path) (offset count : ℕ) : List UInt8 × ℕ :=
  match files filename with
  | none => ([], 0)
  | some file => (sendfileLoop file offset count, count)

end Sock

end Longda
