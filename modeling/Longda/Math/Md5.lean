import Longda.Lib.BlockHash
import Longda.Lib.Buffer
import Longda.Lib.LittleEndian

/-!
# MD5

`md5Update` takes a message in pieces of any size, keeping an unfinished block in the context, and
`md5Final` pads and writes the digest. What the context stands for after some bytes is `Absorbed`:
the state after their whole blocks, their number in bits modulo `2 ^ 64`, and the bytes left over.

`md5Update` counts its blocks in an `unsigned int` that it compares at `i + 63`. Only a piece that
does not start on a block can carry that sum past the type; it then never ends, or leaves the
input first (`transformLoop_eq_none`). Every other piece is absorbed (`md5Update_absorbed`).
-/

namespace Longda.Md5

open Lib

/-- `UINT4`. -/
abbrev UINT4 := UInt32

def S11 : UINT4 := 7
def S12 : UINT4 := 12
def S13 : UINT4 := 17
def S14 : UINT4 := 22
def S21 : UINT4 := 5
def S22 : UINT4 := 9
def S23 : UINT4 := 14
def S24 : UINT4 := 20
def S31 : UINT4 := 4
def S32 : UINT4 := 11
def S33 : UINT4 := 16
def S34 : UINT4 := 23
def S41 : UINT4 := 6
def S42 : UINT4 := 10
def S43 : UINT4 := 15
def S44 : UINT4 := 21

def F (x y z : UINT4) : UINT4 := (x &&& y) ||| (~~~x &&& z)

def G (x y z : UINT4) : UINT4 := (x &&& z) ||| (y &&& ~~~z)

def H (x y z : UINT4) : UINT4 := x ^^^ y ^^^ z

def I (x y z : UINT4) : UINT4 := y ^^^ (x ||| ~~~z)

/-- `ROTATE_LEFT`. -/
def rotateLeft (x n : UINT4) : UINT4 := (x <<< n) ||| (x >>> (32 - n))

/-- What `FF`, `GG`, `HH` and `II` leave in `a`, by their function of `b`, `c` and `d`. -/
def roundStep (f : UINT4 → UINT4 → UINT4 → UINT4) (a b c d x s ac : UINT4) : UINT4 :=
  rotateLeft (a + (f b c d + x + ac)) s + b

def FF : UINT4 → UINT4 → UINT4 → UINT4 → UINT4 → UINT4 → UINT4 → UINT4 := roundStep F

def GG : UINT4 → UINT4 → UINT4 → UINT4 → UINT4 → UINT4 → UINT4 → UINT4 := roundStep G

def HH : UINT4 → UINT4 → UINT4 → UINT4 → UINT4 → UINT4 → UINT4 → UINT4 := roundStep H

def II : UINT4 → UINT4 → UINT4 → UINT4 → UINT4 → UINT4 → UINT4 → UINT4 := roundStep I

/-- `Encode`. -/
def encode : List UINT4 → List UInt8
  | [] => []
  | w :: ws => (w &&& 0xff).toUInt8 :: (w >>> 8 &&& 0xff).toUInt8 :: (w >>> 16 &&& 0xff).toUInt8
      :: (w >>> 24 &&& 0xff).toUInt8 :: encode ws

/-- `Decode`. -/
def decode : List UInt8 → List UINT4
  | b₀ :: b₁ :: b₂ :: b₃ :: bs =>
    (b₀.toUInt32 ||| b₁.toUInt32 <<< 8 ||| b₂.toUInt32 <<< 16 ||| b₃.toUInt32 <<< 24) :: decode bs
  | _ => []

/-- `state`, the four words `A`, `B`, `C` and `D`. -/
structure Abcd where
  a : UINT4
  b : UINT4
  c : UINT4
  d : UINT4
deriving DecidableEq

def Abcd.words (s : Abcd) : List UINT4 := [s.a, s.b, s.c, s.d]

/-- `MD5Transform`. -/
def md5Transform (state : Abcd) (block : List UInt8) : Abcd :=
  let ⟨a, b, c, d⟩ := state
  let x := fun i => (decode block).getD i 0
  -- Round 1
  let a := FF a b c d (x 0) S11 0xd76aa478
  let d := FF d a b c (x 1) S12 0xe8c7b756
  let c := FF c d a b (x 2) S13 0x242070db
  let b := FF b c d a (x 3) S14 0xc1bdceee
  let a := FF a b c d (x 4) S11 0xf57c0faf
  let d := FF d a b c (x 5) S12 0x4787c62a
  let c := FF c d a b (x 6) S13 0xa8304613
  let b := FF b c d a (x 7) S14 0xfd469501
  let a := FF a b c d (x 8) S11 0x698098d8
  let d := FF d a b c (x 9) S12 0x8b44f7af
  let c := FF c d a b (x 10) S13 0xffff5bb1
  let b := FF b c d a (x 11) S14 0x895cd7be
  let a := FF a b c d (x 12) S11 0x6b901122
  let d := FF d a b c (x 13) S12 0xfd987193
  let c := FF c d a b (x 14) S13 0xa679438e
  let b := FF b c d a (x 15) S14 0x49b40821
  -- Round 2
  let a := GG a b c d (x 1) S21 0xf61e2562
  let d := GG d a b c (x 6) S22 0xc040b340
  let c := GG c d a b (x 11) S23 0x265e5a51
  let b := GG b c d a (x 0) S24 0xe9b6c7aa
  let a := GG a b c d (x 5) S21 0xd62f105d
  let d := GG d a b c (x 10) S22 0x2441453
  let c := GG c d a b (x 15) S23 0xd8a1e681
  let b := GG b c d a (x 4) S24 0xe7d3fbc8
  let a := GG a b c d (x 9) S21 0x21e1cde6
  let d := GG d a b c (x 14) S22 0xc33707d6
  let c := GG c d a b (x 3) S23 0xf4d50d87
  let b := GG b c d a (x 8) S24 0x455a14ed
  let a := GG a b c d (x 13) S21 0xa9e3e905
  let d := GG d a b c (x 2) S22 0xfcefa3f8
  let c := GG c d a b (x 7) S23 0x676f02d9
  let b := GG b c d a (x 12) S24 0x8d2a4c8a
  -- Round 3
  let a := HH a b c d (x 5) S31 0xfffa3942
  let d := HH d a b c (x 8) S32 0x8771f681
  let c := HH c d a b (x 11) S33 0x6d9d6122
  let b := HH b c d a (x 14) S34 0xfde5380c
  let a := HH a b c d (x 1) S31 0xa4beea44
  let d := HH d a b c (x 4) S32 0x4bdecfa9
  let c := HH c d a b (x 7) S33 0xf6bb4b60
  let b := HH b c d a (x 10) S34 0xbebfbc70
  let a := HH a b c d (x 13) S31 0x289b7ec6
  let d := HH d a b c (x 0) S32 0xeaa127fa
  let c := HH c d a b (x 3) S33 0xd4ef3085
  let b := HH b c d a (x 6) S34 0x4881d05
  let a := HH a b c d (x 9) S31 0xd9d4d039
  let d := HH d a b c (x 12) S32 0xe6db99e5
  let c := HH c d a b (x 15) S33 0x1fa27cf8
  let b := HH b c d a (x 2) S34 0xc4ac5665
  -- Round 4
  let a := II a b c d (x 0) S41 0xf4292244
  let d := II d a b c (x 7) S42 0x432aff97
  let c := II c d a b (x 14) S43 0xab9423a7
  let b := II b c d a (x 5) S44 0xfc93a039
  let a := II a b c d (x 12) S41 0x655b59c3
  let d := II d a b c (x 3) S42 0x8f0ccc92
  let c := II c d a b (x 10) S43 0xffeff47d
  let b := II b c d a (x 1) S44 0x85845dd1
  let a := II a b c d (x 8) S41 0x6fa87e4f
  let d := II d a b c (x 15) S42 0xfe2ce6e0
  let c := II c d a b (x 6) S43 0xa3014314
  let b := II b c d a (x 13) S44 0x4e0811a1
  let a := II a b c d (x 4) S41 0xf7537e82
  let d := II d a b c (x 11) S42 0xbd3af235
  let c := II c d a b (x 2) S43 0x2ad7d2bb
  let b := II b c d a (x 9) S44 0xeb86d391
  ⟨state.a + a, state.b + b, state.c + c, state.d + d⟩

/-- The `buffer` of a context. -/
abbrev Block := {bs : List UInt8 // bs.length = 64}

/-- `MD5_CTX`. -/
structure Md5Ctx where
  state : Abcd
  count0 : UINT4
  count1 : UINT4
  buffer : Block

def PADDING : List UInt8 := 0x80 :: List.replicate 63 0

/-- `MD5Init`, which leaves the buffer as it is. -/
def md5Init (context : Md5Ctx) : Md5Ctx :=
  { context with
    state := ⟨0x67452301, 0xefcdab89, 0x98badcfe, 0x10325476⟩
    count0 := 0
    count1 := 0 }

/-- `MD5_memcpy(&buffer[index], &input[i], len)`, unless it reads or writes out of bounds. -/
def memcpy (buffer : Block) (index : ℕ) (input : List UInt8) (i len : ℕ) : Option Block :=
  if h : i + len ≤ input.length ∧ index + len ≤ 64 then
    some ⟨poke index ((input.drop i).take len) buffer.1, by
      have hlen : ((input.drop i).take len).length = len := by
        rw [List.length_take, List.length_drop]
        omega
      rw [length_poke (by rw [hlen, buffer.2]; exact h.2), buffer.2]⟩
  else none

/-- The loop `for (i = partLen; i + 63 < inputLen; i += 64)`, unless it reads behind the input or
takes more than `fuel` rounds. -/
def transformLoop (input : List UInt8) (inputLen : UINT4) : ℕ → UINT4 → Abcd →
    Option (UINT4 × Abcd)
  | 0, _, _ => none
  | fuel + 1, i, state =>
    if i + 63 < inputLen then
      if i.toNat + 64 ≤ input.length then
        transformLoop input inputLen fuel (i + 64)
          (md5Transform state ((input.drop i.toNat).take 64))
      else none
    else some (i, state)

/-- `MD5Update`, of which `none` is that it does not return or leaves its buffers. The loop takes
`inputLen / 64` rounds at most where `i` does not wrap. -/
def md5Update (context : Md5Ctx) (input : List UInt8) (inputLen : UINT4) : Option Md5Ctx := do
  let index := (context.count0 >>> 3) &&& 0x3F
  let count0 := context.count0 + (inputLen <<< 3)
  let count1 := if count0 < inputLen <<< 3 then context.count1 + 1 else context.count1
  let count1 := count1 + (inputLen >>> 29)
  let partLen := 64 - index
  if partLen ≤ inputLen then
    let buffer ← memcpy context.buffer index.toNat input 0 partLen.toNat
    let (i, state) ← transformLoop input inputLen (inputLen.toNat / 64 + 1) partLen
      (md5Transform context.state buffer.1)
    let buffer ← memcpy buffer 0 input i.toNat (inputLen - i).toNat
    return ⟨state, count0, count1, buffer⟩
  else
    let buffer ← memcpy context.buffer index.toNat input 0 inputLen.toNat
    return ⟨context.state, count0, count1, buffer⟩

/-- A context overwritten with zeros. -/
def zeroized : Md5Ctx := ⟨⟨0, 0, 0, 0⟩, 0, 0, ⟨List.replicate 64 0, List.length_replicate⟩⟩

/-- `MD5Final`: the digest and the context it leaves. -/
def md5Final (context : Md5Ctx) : Option (List UInt8 × Md5Ctx) := do
  let bits := encode [context.count0, context.count1]
  let index := (context.count0 >>> 3) &&& 0x3f
  let padLen := if index < 56 then 56 - index else 120 - index
  let context ← md5Update context PADDING padLen
  let context ← md5Update context bits 8
  return (encode context.state.words, zeroized)

/-! ## The digest of a whole message -/

/-- The hash `md5Transform` makes, before the padding. -/
def md5Hash : BlockHash Abcd UInt8 where
  size := 64
  init := ⟨0x67452301, 0xefcdab89, 0x98badcfe, 0x10325476⟩
  compress := md5Transform

/-- A message with a one bit and zeros behind it up to 56 mod 64, and its length in bits. -/
def padded (xs : List UInt8) : List UInt8 :=
  xs ++ (0x80 :: List.replicate ((119 - xs.length % 64) % 64) 0) ++ leBytes 8 (8 * xs.length)

/-- The MD5 digest of a message. -/
def md5 (xs : List UInt8) : List UInt8 := encode (md5Hash.run (padded xs)).words

/-! ## Words and bytes -/

theorem toUInt8_shift (w : UINT4) {k : ℕ} (hk : k < 32) :
    (w >>> (UInt32.ofNat k) &&& 0xff).toUInt8 = UInt8.ofNat (w.toNat / 2 ^ k % 256) := by
  have hshift : (w >>> UInt32.ofNat k).toNat = w.toNat / 2 ^ k := by
    rw [UInt32.toNat_shiftRight, UInt32.toNat_ofNat_of_lt' (by simp [UInt32.size]; omega),
      Nat.mod_eq_of_lt hk, Nat.shiftRight_eq_div_pow]
  refine UInt8.toNat_inj.mp ?_
  rw [UInt32.toNat_toUInt8, UInt32.toNat_and, hshift]
  simp [Nat.and_two_pow_sub_one_eq_mod _ 8]

theorem leBytes_four (w : UINT4) : leBytes 4 w.toNat = [(w &&& 0xff).toUInt8,
    (w >>> 8 &&& 0xff).toUInt8, (w >>> 16 &&& 0xff).toUInt8, (w >>> 24 &&& 0xff).toUInt8] := by
  have h₀ : (w &&& 0xff).toUInt8 = UInt8.ofNat (w.toNat % 256) := by
    simpa using toUInt8_shift w (k := 0) (by omega)
  have h₁ := toUInt8_shift w (k := 8) (by omega)
  have h₂ := toUInt8_shift w (k := 16) (by omega)
  have h₃ := toUInt8_shift w (k := 24) (by omega)
  rw [h₀, show (8 : UINT4) = UInt32.ofNat 8 from rfl, h₁,
    show (16 : UINT4) = UInt32.ofNat 16 from rfl, h₂,
    show (24 : UINT4) = UInt32.ofNat 24 from rfl, h₃]
  simp [leBytes, Nat.div_div_eq_div_mul]

theorem encode_eq (ws : List UINT4) : encode ws = ws.flatMap fun w => leBytes 4 w.toNat := by
  induction ws with
  | nil => rfl
  | cons w ws ih =>
    rw [encode, ih, List.flatMap_cons, leBytes_four]
    rfl

/-- The length goes to the digest as one number of eight bytes. -/
theorem encode_count (c₀ c₁ : UINT4) :
    encode [c₀, c₁] = leBytes 8 (c₀.toNat + 2 ^ 32 * c₁.toNat) := by
  have h₀ : (c₀.toNat + 2 ^ 32 * c₁.toNat) % 256 ^ 4 = c₀.toNat := by
    have := c₀.toNat_lt
    omega
  have h₁ : (c₀.toNat + 2 ^ 32 * c₁.toNat) / 256 ^ 4 = c₁.toNat := by
    have := c₀.toNat_lt
    omega
  rw [encode_eq, leBytes_add 4 4, ← leBytes_mod 4 (_ + _), h₀, h₁]
  simp

/-! ## The loop over the blocks of one piece -/

section Loop

variable {ys zs : List UInt8} {inputLen : UINT4}

theorem toNat_add_63 (i : UINT4) : (i + 63).toNat = (i.toNat + 63) % 2 ^ 32 := UInt32.toNat_add i 63

theorem toNat_add_64 (i : UINT4) : (i + 64).toNat = (i.toNat + 64) % 2 ^ 32 := UInt32.toNat_add i 64

/-- Where `i + 63` passes the type, the comparison never ends the loop. -/
theorem transformLoop_eq_none {input : List UInt8} (fuel : ℕ) {i : UINT4} {state : Abcd}
    (hwrap : 2 ^ 32 ≤ (64 - i.toNat % 64) % 64 + inputLen.toNat) :
    transformLoop input inputLen fuel i state = none := by
  induction fuel generalizing i state with
  | zero => rfl
  | succ fuel ih =>
    have hlt : i + 63 < inputLen := by
      have := inputLen.toNat_lt
      rw [UInt32.lt_iff_toNat_lt, toNat_add_63]
      omega
    rw [transformLoop, if_pos hlt]
    split_ifs
    · refine ih ?_
      rw [toNat_add_64]
      omega
    · rfl

theorem transformLoop_eq (hlen : ys.length = inputLen.toNat) (fuel : ℕ) {i : UINT4} {state : Abcd}
    (hi : i.toNat ≤ ys.length) (hfit : (64 - i.toNat % 64) % 64 + ys.length < 2 ^ 32)
    (hfuel : (ys.length - i.toNat) / 64 < fuel) :
    ∃ j : UINT4, j.toNat = i.toNat + 64 * ((ys.length - i.toNat) / 64) ∧
      transformLoop (ys ++ zs) inputLen fuel i state = some (j,
        (blocks 64 ((ys.length - i.toNat) / 64) (ys.drop i.toNat)).foldl md5Transform state) := by
  induction fuel generalizing i state with
  | zero => omega
  | succ fuel ih =>
    have hadd : (i + 63).toNat = i.toNat + 63 := by
      rw [toNat_add_63]
      omega
    by_cases hlt : i.toNat + 64 ≤ ys.length
    · have hadd' : (i + 64).toNat = i.toNat + 64 := by
        rw [toNat_add_64]
        omega
      have hdiv : (ys.length - i.toNat) / 64 = (ys.length - (i.toNat + 64)) / 64 + 1 := by omega
      have htake : ((ys ++ zs).drop i.toNat).take 64 = (ys.drop i.toNat).take 64 := by
        rw [List.drop_append_of_le_length hi,
          List.take_append_of_le_length (by rw [List.length_drop]; omega)]
      obtain ⟨j, hj, hloop⟩ := @ih (i + 64) (md5Transform state ((ys.drop i.toNat).take 64))
        (by omega) (by omega) (by omega)
      refine ⟨j, by omega, ?_⟩
      rw [transformLoop, if_pos (by rw [UInt32.lt_iff_toNat_lt, hadd]; omega),
        if_pos (by rw [List.length_append]; omega), htake, hloop, hdiv, hadd', blocks,
        List.foldl_cons, List.drop_drop]
    · have hdiv : (ys.length - i.toNat) / 64 = 0 := by omega
      refine ⟨i, by omega, ?_⟩
      rw [transformLoop, if_neg (by rw [UInt32.lt_iff_toNat_lt, hadd]; omega), hdiv, blocks,
        List.foldl_nil]

end Loop

/-! ## The context while a message is taken in -/

/-- The context stands for the bytes taken in so far. -/
structure Md5Ctx.Absorbed (context : Md5Ctx) (xs : List UInt8) : Prop where
  state : context.state = md5Hash.run xs
  count : context.count0.toNat + 2 ^ 32 * context.count1.toNat = 8 * xs.length % 2 ^ 64
  buffer : context.buffer.1.take (xs.length % 64) = md5Hash.rest xs

theorem md5Init_absorbed (context : Md5Ctx) : (md5Init context).Absorbed [] where
  state := md5Hash.run_nil.symm
  count := by simp [md5Init]
  buffer := by simp [BlockHash.rest]

variable {context : Md5Ctx} {xs ys zs : List UInt8} {inputLen : UINT4}

theorem Md5Ctx.Absorbed.index (h : context.Absorbed xs) :
    ((context.count0 >>> 3) &&& 0x3F).toNat = xs.length % 64 := by
  have hcount := h.count
  have := context.count0.toNat_lt
  have hshift : (context.count0 >>> 3).toNat = context.count0.toNat / 2 ^ 3 := by
    rw [← Nat.shiftRight_eq_div_pow]
    rfl
  rw [UInt32.toNat_and, hshift, show (0x3F : UINT4).toNat = 2 ^ 6 - 1 from rfl,
    Nat.and_two_pow_sub_one_eq_mod]
  omega

theorem Md5Ctx.Absorbed.partLen (h : context.Absorbed xs) :
    ((64 : UINT4) - ((context.count0 >>> 3) &&& 0x3F)).toNat = 64 - xs.length % 64 := by
  have hsixty : (64 : UINT4).toNat = 64 := rfl
  have hindex := h.index
  rw [UInt32.toNat_sub_of_le _ _ (by rw [UInt32.le_iff_toNat_le, hindex, hsixty]; omega), hindex,
    hsixty]

/-- The two words of `count` are one counter. -/
theorem toNat_count (c₀ c₁ n : UINT4) :
    (c₀ + (n <<< 3)).toNat + 2 ^ 32
      * ((if c₀ + (n <<< 3) < n <<< 3 then c₁ + 1 else c₁) + (n >>> 29)).toNat
      = (c₀.toNat + 2 ^ 32 * c₁.toNat + 8 * n.toNat) % 2 ^ 64 := by
  have h₀ := c₀.toNat_lt
  have h₁ := c₁.toNat_lt
  have hn := n.toNat_lt
  have hlow : (n <<< 3).toNat = 8 * n.toNat % 2 ^ 32 := by
    rw [UInt32.toNat_shiftLeft, Nat.shiftLeft_eq]
    change n.toNat * 8 % 2 ^ 32 = _
    rw [Nat.mul_comm]
  have hhigh : (n >>> 29).toNat = n.toNat / 2 ^ 29 := by
    rw [← Nat.shiftRight_eq_div_pow]
    rfl
  have hone : (1 : UINT4).toNat = 1 := rfl
  split_ifs with hlt <;> rw [UInt32.lt_iff_toNat_lt, UInt32.toNat_add, hlow] at hlt <;>
    simp only [UInt32.toNat_add, hlow, hhigh, hone] <;> omega

theorem memcpy_eq {buffer : Block} {index i len : ℕ} {input : List UInt8}
    (hin : i + len ≤ input.length) (hout : index + len ≤ 64) :
    ∃ buffer' : Block, memcpy buffer index input i len = some buffer' ∧
      buffer'.1 = poke index ((input.drop i).take len) buffer.1 :=
  ⟨_, dif_pos ⟨hin, hout⟩, rfl⟩

/-- What one call of `MD5Update` does to a context, where it returns. -/
theorem md5Update_absorbed (h : context.Absorbed xs) (hlen : ys.length = inputLen.toNat)
    (hfit : xs.length % 64 + ys.length < 2 ^ 32) :
    ∃ context', md5Update context (ys ++ zs) inputLen = some context' ∧
      context'.Absorbed (xs ++ ys) := by
  have hcount : 8 * (xs ++ ys).length % 2 ^ 64 =
      (context.count0.toNat + 2 ^ 32 * context.count1.toNat + 8 * inputLen.toNat) % 2 ^ 64 := by
    rw [h.count, List.length_append, hlen]
    omega
  have hindex := h.index
  have hbuffer := context.buffer.2
  have hrest : (md5Hash.rest xs).length = xs.length % 64 := md5Hash.length_rest xs
  have hpart := h.partLen
  unfold md5Update
  simp only [UInt32.le_iff_toNat_le, hpart, hindex]
  by_cases hle : 64 - xs.length % 64 ≤ inputLen.toNat
  · obtain ⟨hrun, hrest'⟩ := @BlockHash.run_append_of_le _ _ md5Hash xs ys (by decide)
      (64 - xs.length % 64) rfl (by rw [hlen]; exact hle)
    obtain ⟨first, hcpy, hfirst⟩ := @memcpy_eq context.buffer (xs.length % 64) 0
      (64 - xs.length % 64) (ys ++ zs) (by rw [List.length_append]; omega) (by omega)
    obtain ⟨j, hj, hloop⟩ := @transformLoop_eq ys zs inputLen hlen (inputLen.toNat / 64 + 1)
      ((64 : UINT4) - ((context.count0 >>> 3) &&& 0x3F)) (md5Transform context.state first.1)
      (by omega) (by omega) (by omega)
    have hsub : (inputLen - j).toNat = ys.length - j.toNat := by
      rw [UInt32.toNat_sub_of_le _ _ (by rw [UInt32.le_iff_toNat_le]; omega), hlen]
    obtain ⟨last, hcpy', hlast⟩ := @memcpy_eq first 0 j.toNat (ys.length - j.toNat) (ys ++ zs)
      (by rw [List.length_append]; omega) (by omega)
    rw [if_pos hle, hcpy]
    simp only [hloop, hsub, hcpy', Option.bind_eq_bind, Option.bind_some, Option.pure_def]
    have htake : ((ys ++ zs).drop 0).take (64 - xs.length % 64) = ys.take (64 - xs.length % 64) :=
      List.take_append_of_le_length (by omega)
    have hblock : first.1 = md5Hash.rest xs ++ ys.take (64 - xs.length % 64) := by
      rw [hfirst, htake, ← h.buffer, poke, List.drop_of_length_le, List.append_nil]
      rw [List.length_take]
      omega
    have htail : ((ys ++ zs).drop j.toNat).take (ys.length - j.toNat) = ys.drop j.toNat := by
      rw [List.drop_append_of_le_length (by omega), ← List.length_drop, List.take_left]
    refine ⟨_, rfl, ?_, ?_, ?_⟩
    · simp only [hpart, hblock, h.state]
      exact hrun.symm
    · rw [hcount]
      exact toNat_count _ _ _
    · have hmod : (xs ++ ys).length % 64 = 0 + (ys.drop j.toNat).length := by
        rw [List.length_append, List.length_drop]
        omega
      rw [hrest', hlast, htail, hmod, take_poke (Nat.zero_le _), List.take_zero, List.nil_append,
        hj, hpart]
      rfl
  · obtain ⟨hrun, hrest'⟩ := @BlockHash.run_append_of_lt _ _ md5Hash xs ys (by decide)
      (by change _ % 64 + _ < 64; omega)
    obtain ⟨buffer', hcpy, hbuf⟩ := @memcpy_eq context.buffer (xs.length % 64) 0 inputLen.toNat
      (ys ++ zs) (by simp [hlen]) (by omega)
    rw [if_neg hle, hcpy]
    refine ⟨_, rfl, ?_, ?_, ?_⟩
    · exact h.state.trans hrun.symm
    · rw [hcount]
      exact toNat_count _ _ _
    · have hmod : (xs ++ ys).length % 64 = xs.length % 64 + ys.length := by
        rw [List.length_append]
        omega
      rw [hrest', ← h.buffer, hmod, hbuf, List.drop_zero, ← hlen, List.take_left,
        take_poke (by omega)]

theorem take_padding {k : ℕ} (hk : k < 64) :
    PADDING.take (k + 1) = 0x80 :: List.replicate k 0 := by
  rw [PADDING, List.take_succ_cons, List.take_replicate, Nat.min_eq_left (by omega)]

theorem padLen_toNat {index : UINT4} (h : index.toNat < 64) :
    (if index < 56 then 56 - index else 120 - index : UINT4).toNat
      = (119 - index.toNat) % 64 + 1 := by
  have h₅₆ : (56 : UINT4).toNat = 56 := rfl
  have h₁₂₀ : (120 : UINT4).toNat = 120 := rfl
  split_ifs with hlt <;> rw [UInt32.lt_iff_toNat_lt, h₅₆] at hlt
  · rw [UInt32.toNat_sub_of_le _ _ (by rw [UInt32.le_iff_toNat_le]; omega), h₅₆]
    omega
  · rw [UInt32.toNat_sub_of_le _ _ (by rw [UInt32.le_iff_toNat_le]; omega), h₁₂₀]
    omega

/-- `PADDING` ends the message eight bytes before a block ends, and the length fills these. -/
theorem md5Final_absorbed (h : context.Absorbed xs) :
    md5Final context = some (md5 xs, zeroized) := by
  have hindex := h.index
  have hpadLen := @padLen_toNat ((context.count0 >>> 3) &&& 0x3f) (by omega)
  rw [hindex] at hpadLen
  have hbits : encode [context.count0, context.count1] = leBytes 8 (8 * xs.length) := by
    rw [encode_count, h.count]
    exact leBytes_mod 8 _
  have hpad := take_padding (k := (119 - xs.length % 64) % 64) (Nat.mod_lt _ (by decide))
  obtain ⟨context₁, hupdate, h₁⟩ := @md5Update_absorbed context xs
    (PADDING.take ((119 - xs.length % 64) % 64 + 1))
    (PADDING.drop ((119 - xs.length % 64) % 64 + 1)) _ h (by rw [hpadLen, hpad]; simp)
    (by rw [hpad, List.length_cons, List.length_replicate]; omega)
  obtain ⟨context₂, hupdate', h₂⟩ := @md5Update_absorbed context₁ _ (leBytes 8 (8 * xs.length))
    [] 8 h₁ (length_leBytes _ _) (by rw [length_leBytes]; omega)
  rw [List.take_append_drop] at hupdate
  rw [List.append_nil] at hupdate'
  unfold md5Final
  simp only [hupdate, hbits, hupdate', Option.bind_eq_bind, Option.bind_some, Option.pure_def]
  rw [h₂.state, hpad]
  rfl

/-- A call whose piece wraps the block counter does not return. -/
theorem md5Update_eq_none {input : List UInt8} (h : context.Absorbed xs)
    (hwrap : 2 ^ 32 ≤ xs.length % 64 + inputLen.toNat) :
    md5Update context input inputLen = none := by
  have hindex := h.index
  have hlt := inputLen.toNat_lt
  have hpart := h.partLen
  have hloop := fun state => @transformLoop_eq_none inputLen input
    (inputLen.toNat / 64 + 1) ((64 : UINT4) - ((context.count0 >>> 3) &&& 0x3F)) state
    (by rw [hpart]; omega)
  unfold md5Update
  simp only [UInt32.le_iff_toNat_le, hpart, hloop]
  rw [if_pos (by omega)]
  cases memcpy context.buffer ((context.count0 >>> 3) &&& 0x3F).toNat input 0
    (64 - xs.length % 64) <;> rfl

/-! ## Messages in pieces -/

/-- A message taken in by one `MD5Update` for each piece. -/
def md5Updates : Md5Ctx → List (List UInt8) → Option Md5Ctx
  | context, [] => some context
  | context, c :: cs => do
    let context ← md5Update context c (UInt32.ofNat c.length)
    md5Updates context cs

/-- No piece carries the block counter past its type, `n` bytes coming before them. -/
def Unwrapped : ℕ → List (List UInt8) → Prop
  | _, [] => True
  | n, c :: cs => n % 64 + c.length < 2 ^ 32 ∧ Unwrapped (n + c.length) cs

variable {cs : List (List UInt8)}

theorem md5Updates_absorbed (h : context.Absorbed xs) (hcs : ∀ c ∈ cs, c.length < 2 ^ 32)
    (hfit : Unwrapped xs.length cs) : ∃ context', md5Updates context cs = some context' ∧
      context'.Absorbed (xs ++ cs.flatten) := by
  induction cs generalizing context xs with
  | nil => exact ⟨context, rfl, by simpa using h⟩
  | cons c cs ih =>
    have hlen : c.length = (UInt32.ofNat c.length).toNat :=
      (UInt32.toNat_ofNat_of_lt' (hcs c List.mem_cons_self)).symm
    obtain ⟨context₁, hupdate, h₁⟩ := @md5Update_absorbed context xs c [] _ h hlen hfit.1
    obtain ⟨context₂, hupdates, h₂⟩ := ih h₁ (fun d hd => hcs d (List.mem_cons_of_mem _ hd))
      (by rw [List.length_append]; exact hfit.2)
    rw [List.append_nil] at hupdate
    refine ⟨context₂, ?_, by simpa using h₂⟩
    rw [md5Updates, hupdate, Option.bind_eq_bind, Option.bind_some, hupdates]

theorem md5Updates_eq_none (h : context.Absorbed xs) (hcs : ∀ c ∈ cs, c.length < 2 ^ 32)
    (hwrap : ¬ Unwrapped xs.length cs) : md5Updates context cs = none := by
  induction cs generalizing context xs with
  | nil => exact absurd trivial hwrap
  | cons c cs ih =>
    have hlen : c.length = (UInt32.ofNat c.length).toNat :=
      (UInt32.toNat_ofNat_of_lt' (hcs c List.mem_cons_self)).symm
    by_cases hfit : xs.length % 64 + c.length < 2 ^ 32
    · obtain ⟨context₁, hupdate, h₁⟩ := @md5Update_absorbed context xs c [] _ h hlen hfit
      rw [List.append_nil] at hupdate
      rw [md5Updates, hupdate, Option.bind_eq_bind, Option.bind_some]
      refine ih h₁ (fun d hd => hcs d (List.mem_cons_of_mem _ hd)) fun hrest => hwrap ⟨hfit, ?_⟩
      rwa [List.length_append] at hrest
    · rw [md5Updates, md5Update_eq_none h (by omega)]
      rfl

end Longda.Md5
