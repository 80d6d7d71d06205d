import Longda.Lib.Buffer

/-!
# End points

An `EndPoint` names a host, a location and a service in character arrays of fixed size, and a port.
`EndPoint.serialize` writes it at an offset of a buffer, in 84 bytes; `EndPoint.deserialize` reads
it back, each string cut so that its array ends with a terminator.
-/

namespace Longda

open Lib

/-- `char [n]`. -/
@[ext] structure Chars (n : ℕ) where
  chars : List UInt8
  length_chars : chars.length = n
  deriving DecidableEq

namespace Chars

variable {n : ℕ}

/-- The array ends a C string. -/
def Terminated (c : Chars n) : Prop := (cString c.chars).length < n

/-- The array as a string. -/
def str (c : Chars n) : List UInt8 := cString c.chars

/-- `memset(array, 0, n)` and `strncpy(array, s, n - 1)`. -/
def ofString (s : List UInt8) : Chars (n + 1) :=
  ⟨strncpy n s ++ [0], by rw [List.length_append, length_strncpy]; rfl⟩

theorem ofString_congr {s t : List UInt8} (h : strncpy n s = strncpy n t) :
    (ofString s : Chars (n + 1)) = ofString t :=
  Chars.ext (by simp only [ofString, h])

theorem str_ofString (s : List UInt8) : (ofString s : Chars (n + 1)).str = (cString s).take n := by
  have hne : ∀ b ∈ (cString s).take n, b ≠ 0 := fun b hb =>
    ne_zero_of_mem_cString (List.mem_of_mem_take hb)
  simp only [str, ofString, strncpy, List.append_assoc]
  rcases n - (cString s).length with _ | k
  · exact cString_append_zero _ hne []
  · rw [List.replicate_succ, List.cons_append, cString_append_zero _ hne]

theorem str_ofString_of_terminated {c : Chars (n + 1)} (h : c.Terminated) :
    (ofString c.chars : Chars (n + 1)).str = c.str := by
  rw [str_ofString, str, List.take_of_length_le (Nat.lt_succ_iff.1 h)]

/-- A copy that is cut no shorter is read alike. -/
theorem ofString_strncpy {m : ℕ} (h : n ≤ m) (s : List UInt8) :
    (ofString (strncpy m s) : Chars (n + 1)) = ofString s :=
  ofString_congr (strncpy_strncpy h s)

theorem ofString_ofString (s : List UInt8) :
    (ofString (ofString s : Chars (n + 1)).chars : Chars (n + 1)) = ofString s := by
  refine ofString_congr (strncpy_congr ?_)
  have := str_ofString (n := n) s
  rw [str] at this
  rw [this, List.take_take, Nat.min_self]

/-- `strncpy(array, s, n + 1)` and `array[n] = '\0'`. -/
def cut (s : List UInt8) : Chars (n + 1) :=
  ⟨(strncpy (n + 1) s).take n ++ [0], by simp [length_strncpy]⟩

/-- The terminator is set behind the copy, or the copy stops before it; that is the same. -/
theorem cut_eq_ofString (s : List UInt8) : (cut s : Chars (n + 1)) = ofString s := by
  refine Chars.ext ?_
  have hcut : (strncpy (n + 1) s).take n = strncpy n s := by
    rw [strncpy, strncpy, List.take_append, List.take_take, List.take_replicate, List.length_take]
    congr 2 <;> omega
  simp only [cut, ofString, hcut]

theorem cut_val_strncpy {mem : ℕ → UInt8} {off : ℕ} {s : List UInt8}
    (h : HasAt mem off (cut s : Chars (n + 1)).chars) :
    (cut ((Peek.strncpy off (n + 1)).val mem) : Chars (n + 1)) = ofString s := by
  have hlen := (cut s : Chars (n + 1)).length_chars
  have hread := h.take hlen.ge
  rw [List.take_of_length_le hlen.le] at hread
  rw [Peek.val_strncpy, hread, cut_eq_ofString, cut_eq_ofString,
    ofString_strncpy (Nat.le_succ n), ofString_ofString]

end Chars

def MAX_HOSTNAME_LEN : ℕ := 32
def MAX_LOCATION_LEN : ℕ := 32
def MAX_SERVICE_LEN : ℕ := 16

@[ext] structure EndPoint where
  mHostName : Chars MAX_HOSTNAME_LEN
  mLocation : Chars MAX_LOCATION_LEN
  mService : Chars MAX_SERVICE_LEN
  mPort : Int32
  deriving DecidableEq

/-- `*(s32_t *)p = n`. -/
def s32Bytes (n : Int32) : List UInt8 := leBytes 4 n.toUInt32.toNat

/-- `*(s32_t *)p`. -/
def s32OfBytes (bs : List UInt8) : Int32 := (UInt32.ofNat (leNat bs)).toInt32

@[simp] theorem length_s32Bytes (n : Int32) : (s32Bytes n).length = 4 := length_leBytes 4 _

theorem s32OfBytes_s32Bytes (n : Int32) : s32OfBytes (s32Bytes n) = n := by
  have hlt : n.toUInt32.toNat < 256 ^ 4 := n.toUInt32.toNat_lt
  rw [s32OfBytes, s32Bytes, leNat_leBytes, Nat.mod_eq_of_lt hlt, UInt32.ofNat_toNat]
  exact Int32.toInt32_toUInt32 n

namespace EndPoint

def getSerialSize : ℕ := MAX_HOSTNAME_LEN + MAX_LOCATION_LEN + MAX_SERVICE_LEN + 4

/-- `serialize` at an offset of the buffer, with what it returns. -/
def serialize (ep : EndPoint) (off : ℕ) (buffer : List UInt8) (bufferLen : ℤ) :
    ℤ × List UInt8 :=
  let usedBufLen := getSerialSize
  if bufferLen < usedBufLen then (-1, buffer)
  else
    let buffer := poke off (List.replicate usedBufLen 0) buffer
    (usedBufLen, pokes off
      [strncpy MAX_HOSTNAME_LEN ep.mHostName.chars, strncpy MAX_LOCATION_LEN ep.mLocation.chars,
        strncpy MAX_SERVICE_LEN ep.mService.chars, s32Bytes ep.mPort] buffer)

/-- `deserialize` from an offset; there is no result where it returns `-1`. -/
def deserialize (off : ℕ) (bufferLen : ℤ) : Peek (Option EndPoint) :=
  if bufferLen < getSerialSize then pure none
  else do
    let hostName ← Peek.strncpy off (MAX_HOSTNAME_LEN - 1)
    let location ← Peek.strncpy (off + MAX_HOSTNAME_LEN) (MAX_LOCATION_LEN - 1)
    let service ← Peek.strncpy (off + MAX_HOSTNAME_LEN + MAX_LOCATION_LEN) (MAX_SERVICE_LEN - 1)
    let port ← Peek.bytes (off + MAX_HOSTNAME_LEN + MAX_LOCATION_LEN + MAX_SERVICE_LEN) 4
    pure (some
      { mHostName := Chars.ofString hostName
        mLocation := Chars.ofString location
        mService := Chars.ofString service
        mPort := s32OfBytes port })

/-- The bytes `serialize` leaves. -/
def bytes (ep : EndPoint) : List UInt8 :=
  [strncpy MAX_HOSTNAME_LEN ep.mHostName.chars, strncpy MAX_LOCATION_LEN ep.mLocation.chars,
    strncpy MAX_SERVICE_LEN ep.mService.chars, s32Bytes ep.mPort].flatten

@[simp] theorem length_bytes (ep : EndPoint) : ep.bytes.length = getSerialSize := by
  simp [bytes, length_strncpy, getSerialSize, Nat.add_assoc]

theorem serialize_eq {ep : EndPoint} {off : ℕ} {buffer : List UInt8} {bufferLen : ℤ}
    (hlen : (getSerialSize : ℤ) ≤ bufferLen) (hbuf : off + getSerialSize ≤ buffer.length) :
    ep.serialize off buffer bufferLen = (↑getSerialSize, poke off ep.bytes buffer) := by
  have hz : (List.replicate getSerialSize (0 : UInt8)).length = getSerialSize :=
    List.length_replicate
  have hb := ep.length_bytes
  have hl : (poke off (List.replicate getSerialSize 0) buffer).length = buffer.length :=
    length_poke (by omega)
  rw [serialize, if_neg (not_lt.2 hlen)]
  refine congrArg (Prod.mk _) ((pokes_eq ?_).trans (poke_over ?_ (hb.trans hz.symm).ge))
  · rw [hl]
    exact hb.symm ▸ hbuf
  · rwa [hz]

/-- The end point with each array as it is after a copy. -/
def normal (ep : EndPoint) : EndPoint where
  mHostName := Chars.ofString ep.mHostName.chars
  mLocation := Chars.ofString ep.mLocation.chars
  mService := Chars.ofString ep.mService.chars
  mPort := ep.mPort

theorem normal_normal (ep : EndPoint) : ep.normal.normal = ep.normal :=
  EndPoint.ext (Chars.ofString_ofString _) (Chars.ofString_ofString _)
    (Chars.ofString_ofString _) rfl

theorem within_deserialize (off : ℕ) (bufferLen : ℤ) :
    (deserialize off bufferLen).Within off (off + getSerialSize) := by
  unfold deserialize
  split_ifs
  · exact Peek.within_pure
  · simp only [getSerialSize, MAX_HOSTNAME_LEN, MAX_LOCATION_LEN, MAX_SERVICE_LEN]
    refine ((Peek.within_strncpy _ _).mono ?_ ?_).bind fun _ =>
      ((Peek.within_strncpy _ _).mono ?_ ?_).bind fun _ =>
      ((Peek.within_strncpy _ _).mono ?_ ?_).bind fun _ =>
      ((Peek.within_bytes _ _).mono ?_ ?_).bind fun _ => Peek.within_pure
    all_goals omega

theorem val_deserialize {ep : EndPoint} {off : ℕ} {bufferLen : ℤ} {mem : ℕ → UInt8}
    (h : HasAt mem off ep.bytes) (hlen : (getSerialSize : ℤ) ≤ bufferLen) :
    (deserialize off bufferLen).val mem = some ep.normal := by
  simp only [bytes, List.flatten_cons, List.flatten_nil, List.append_nil, hasAt_append,
    length_strncpy] at h
  obtain ⟨hhost, hloc, hserv, hport⟩ := h
  have hport' : (Peek.bytes (off + MAX_HOSTNAME_LEN + MAX_LOCATION_LEN + MAX_SERVICE_LEN) 4).val mem
      = s32Bytes ep.mPort := hport
  rw [deserialize, if_neg (not_lt.2 hlen)]
  simp only [Peek.val_bind, Peek.val_pure, hhost.val_strncpy (Nat.sub_le _ 1),
    hloc.val_strncpy (Nat.sub_le _ 1), hserv.val_strncpy (Nat.sub_le _ 1), hport',
    s32OfBytes_s32Bytes]
  refine congrArg some (EndPoint.ext ?_ ?_ ?_ rfl)
  all_goals exact Chars.ofString_strncpy le_rfl _

theorem normal_of_deserialize (off : ℕ) {bufferLen : ℤ} (mem : ℕ → UInt8)
    (hlen : (getSerialSize : ℤ) ≤ bufferLen) :
    ∃ ep : EndPoint, (deserialize off bufferLen).val mem = some ep ∧ ep.normal = ep := by
  rw [deserialize, if_neg (not_lt.2 hlen)]
  exact ⟨_, rfl, EndPoint.ext (Chars.ofString_ofString _) (Chars.ofString_ofString _)
    (Chars.ofString_ofString _) rfl⟩

end EndPoint

end Longda
