import Longda.Lang.Strip
import Longda.Lib.Buffer
import Longda.Lib.CheckedInt
import Longda.Lib.Hexadecimal
import Longda.Lib.MachineInt

/-!
# Bytes as hexadecimal text

`bin2hex` prints two digits for each byte, one behind the other, and `hex2bin` reads two characters
for each byte. Both count in `int`s: the length of the text overflows for `2 ^ 30` bytes, and a text
of `2 ^ 31` characters is not read. Up to there they undo each other and write as many bytes as the
text and the array have, and a terminator (`hexCodec_iff`).
-/

namespace Longda

open Lib

namespace CLstring

/-- Bytes written from a place of a buffer on; there is none outside. -/
def writeAt (buffer : Str) (place : ℤ) (bytes : Str) : Option Str :=
  if 0 ≤ place ∧ place + bytes.length ≤ buffer.length then some (poke place.toNat bytes buffer)
  else none

/-- What `sprintf` prints for `%02x`. -/
def printByte (c : UInt8) : Str := hexPadded 2 c.toNat

/-- The loop of `bin2hex` over the bytes that are left. -/
def bin2hexLoop : Str → ℤ → Str → Option (ℤ × Str)
  | [], nLen, szHexBuff => some (nLen, szHexBuff)
  | c :: s, nLen, szHexBuff => do
    let szHexBuff ← writeAt szHexBuff nLen (printByte c ++ [0])
    let nLen ← ((nLen : CInt) + (((printByte c).length : ℤ) : CInt)).get?
    bin2hexLoop s nLen szHexBuff

/-- `bin2hex(s, len, szHexBuff)` for an array of `len` bytes: the buffer after it. -/
def bin2hex (s szHexBuff : Str) : Option Str := do
  let (nLen, szHexBuff) ← bin2hexLoop s 0 szHexBuff
  writeAt szHexBuff nLen [0]

/-- `strtol` to the base 16, for a text too short for a prefix or an overflow. -/
def strtolHex (str : Str) : ℤ :=
  let str := str.dropWhile isspace
  let digits := (if str.head? = some 43 ∨ str.head? = some 45 then str.tail else str).takeWhile
    fun c => (hexValue c).isSome
  if str.head? = some 45 then -hexNumber digits else hexNumber digits

/-- The loop of `hex2bin` with `n` bytes to go: where `pDest` ends, and the buffer. -/
def hex2binLoop (s : Str) : ℕ → ℕ → ℕ → Str → Option (ℕ × Str)
  | 0, _, pDest, szBinBuff => some (pDest, szBinBuff)
  | n + 1, pSrc, pDest, szBinBuff => do
    let c ← charAt s pSrc
    let c' ← charAt s (pSrc + 1)
    let szBinBuff ← setCharAt szBinBuff pDest (UInt8.ofInt (strtolHex [c, c']))
    hex2binLoop s n (pSrc + 2) (pDest + 1) szBinBuff

/-- `hex2bin(s, szBinBuff, nDestLen)`: the buffer after it and the length. -/
def hex2bin (s szBinBuff : Str) : Option (Str × ℤ) := do
  let nSrcLen := toInt s.length
  if nSrcLen = 0 then
    let szBinBuff ← setCharAt szBinBuff 0 0
    some (szBinBuff, 0)
  else
    let nDestLen := nSrcLen.tdiv 2
    let (pDest, szBinBuff) ← hex2binLoop s nDestLen.toNat 0 0 szBinBuff
    let szBinBuff ← setCharAt szBinBuff pDest 0
    some (szBinBuff, nDestLen)

/-- The text of an array has two characters for each byte, is all that is written, and is read as
the array and its length, and so much is written then. -/
def BytesReturn (b : Str) : Prop :=
  ∀ szHexBuff szBinBuff : Str, 2 * b.length + 1 ≤ szHexBuff.length →
    b.length + 1 ≤ szBinBuff.length → ∃ text, bin2hex b szHexBuff = some text ∧
      (cString text).length = 2 * b.length ∧ text = poke 0 (cString text ++ [0]) szHexBuff ∧
      hex2bin (cString text) szBinBuff = some (poke 0 (b ++ [0]) szBinBuff, (b.length : ℤ))

/-- The array of a text has half as many bytes, is all that is written, and has this text. -/
def TextReturns (h : Str) : Prop :=
  ∀ szBinBuff szHexBuff : Str, h.length / 2 + 1 ≤ szBinBuff.length →
    h.length + 1 ≤ szHexBuff.length → ∃ b : Str, b.length = h.length / 2 ∧
      hex2bin h szBinBuff = some (poke 0 (b ++ [0]) szBinBuff, (b.length : ℤ)) ∧
      bin2hex b szHexBuff = some (poke 0 (h ++ [0]) szHexBuff)

/-! ## Printing -/

section Printing

variable {s b text szHexBuff : Str} {nLen n : ℤ}

/-- The text of an array. -/
def hexOf (b : Str) : Str := b.flatMap fun c => hexDigits 2 c.toNat

theorem printByte_eq (c : UInt8) : printByte c = hexDigits 2 c.toNat :=
  hexPadded_eq (by omega) c.toNat_lt

theorem length_hexOf (b : Str) : (hexOf b).length = 2 * b.length := by
  induction b with
  | nil => rfl
  | cons c b ih =>
    rw [hexOf, List.flatMap_cons, List.length_append, length_hexDigits, List.length_cons]
    unfold hexOf at ih
    omega

theorem isHexDigit_of_mem_hexOf : ∀ c ∈ hexOf b, IsHexDigit c := by
  intro c hc
  obtain ⟨d, -, hd⟩ := List.mem_flatMap.1 hc
  exact isHexDigit_of_mem_hexDigits hd

theorem cString_digits (h : ∀ c ∈ text, IsHexDigit c) (rest : Str) :
    cString (text ++ 0 :: rest) = text := by
  refine cString_append_zero text (fun c hc => ?_) rest
  rintro rfl
  exact absurd (h 0 hc) (by decide)

/-- The length goes up by two for each byte, and stays an `int`. -/
theorem bin2hexLoop_length (h : bin2hexLoop s nLen szHexBuff = some (n, text)) (hn : InInt nLen) :
    n = nLen + 2 * s.length ∧ InInt n := by
  induction s generalizing nLen szHexBuff with
  | nil =>
    obtain ⟨rfl, -⟩ := Prod.mk.inj (Option.some.inj h)
    exact ⟨by simp, hn⟩
  | cons c s ih =>
    unfold bin2hexLoop at h
    obtain ⟨buff, -, h⟩ := Option.bind_eq_some_iff.1 h
    obtain ⟨nLen', hnext, h⟩ := Option.bind_eq_some_iff.1 h
    obtain ⟨hfits, rfl⟩ := CInt.get?_eq_some_iff.1 hnext
    simp [printByte_eq] at hfits h
    obtain ⟨rfl, hn'⟩ := ih h hfits.2.2
    refine ⟨?_, hn'⟩
    rw [List.length_cons]
    push_cast
    omega

theorem bin2hexLoop_eq {off : ℕ} (hlen : off + 2 * s.length < 2 ^ 31)
    (hbuf : off + 2 * s.length + 1 ≤ szHexBuff.length) :
    ∃ last, bin2hexLoop s off szHexBuff = some (((off + 2 * s.length : ℕ) : ℤ), last) ∧
      last.length = szHexBuff.length ∧
      poke (off + 2 * s.length) [0] last = poke off (hexOf s ++ [0]) szHexBuff := by
  induction s generalizing off szHexBuff with
  | nil => exact ⟨szHexBuff, rfl, rfl, rfl⟩
  | cons c s ih =>
    simp only [List.length_cons] at hlen hbuf
    have htwo : (hexDigits 2 c.toNat ++ [0]).length = 3 := by simp
    have hpoke3 : (poke off (hexDigits 2 c.toNat ++ [0]) szHexBuff).length = szHexBuff.length :=
      length_poke (by omega)
    have hwrite : writeAt szHexBuff off (printByte c ++ [0]) =
        some (poke off (hexDigits 2 c.toNat ++ [0]) szHexBuff) := by
      rw [writeAt, printByte_eq, if_pos (by omega), Int.toNat_natCast]
    have hnext : (((off : ℤ) : CInt) + (((printByte c).length : ℤ) : CInt)).get? =
        some ((off + 2 : ℕ) : ℤ) := by
      rw [CInt.get?_eq_some_iff, printByte_eq, length_hexDigits]
      simp [InInt]
      omega
    obtain ⟨last, hloop, hlast, hpoke⟩ := ih
      (show off + 2 + 2 * s.length < 2 ^ 31 by omega) (show off + 2 + 2 * s.length + 1 ≤
        (poke off (hexDigits 2 c.toNat ++ [0]) szHexBuff).length by omega)
    have hplace : off + 2 + 2 * s.length = off + 2 * (s.length + 1) := by omega
    rw [hplace] at hloop hpoke
    refine ⟨last, ?_, hlast.trans hpoke3, ?_⟩
    · unfold bin2hexLoop
      simp only [hwrite, hnext, Option.bind_eq_bind, Option.bind_some]
      exact hloop
    · have hdigits : off + 2 = off + (hexDigits 2 c.toNat).length := by simp
      have hbytes : (poke off (hexDigits 2 c.toNat) szHexBuff).length = szHexBuff.length :=
        length_poke (by simp; omega)
      -- the terminator behind the two digits is overwritten by what follows
      rw [List.length_cons, hpoke, ← poke_poke hdigits (by omega), poke_over (by simp; omega)
        (by simp), poke_poke hdigits (by omega), ← List.append_assoc]
      rfl

/-- The text and its terminator are all that is written. -/
theorem bin2hex_eq (hlen : 2 * b.length < 2 ^ 31) (hbuf : 2 * b.length + 1 ≤ szHexBuff.length) :
    bin2hex b szHexBuff = some (poke 0 (hexOf b ++ [0]) szHexBuff) := by
  obtain ⟨last, hloop, hlast, hpoke⟩ := bin2hexLoop_eq (show 0 + 2 * b.length < 2 ^ 31 by omega)
    (show 0 + 2 * b.length + 1 ≤ szHexBuff.length by omega)
  rw [Nat.zero_add] at hloop hpoke
  unfold bin2hex
  rw [show bin2hexLoop b 0 szHexBuff = _ from hloop, Option.bind_eq_bind, Option.bind_some]
  dsimp only
  rw [writeAt, if_pos (by simp; omega), Int.toNat_natCast, hpoke]

end Printing

/-! ## Reading -/

section Reading

variable {b szBinBuff : Str}

theorem strtolHex_pair {c c' : UInt8} (h : IsHexDigit c) (h' : IsHexDigit c') :
    strtolHex [c, c'] = hexNumber [c, c'] := by
  have hspace : isspace c = false := by
    rw [← Bool.not_eq_true, isspace, Bool.or_eq_true, Bool.and_eq_true, beq_iff_eq,
      decide_eq_true_iff, decide_eq_true_iff]
    rintro (rfl | ⟨-, h13⟩)
    · exact absurd h (by decide)
    · have : c.toNat ≤ 13 := h13
      rcases h with h | h <;> omega
  have hplus : c ≠ 43 := by
    rintro rfl
    exact absurd h (by decide)
  have hminus : c ≠ 45 := by
    rintro rfl
    exact absurd h (by decide)
  obtain ⟨d, -, hvalue, -⟩ := hexValue_of_isHexDigit h
  obtain ⟨d', -, hvalue', -⟩ := hexValue_of_isHexDigit h'
  simp [strtolHex, hspace, hplus, hminus, hvalue, hvalue']

/-- A byte is read from its digits. -/
theorem exists_digits (c : UInt8) : ∃ d d', hexDigits 2 c.toNat = [d, d'] ∧
    UInt8.ofInt (strtolHex [d, d']) = c := by
  refine ⟨hexDigit (c.toNat / 16 % 16), hexDigit (c.toNat % 16), rfl, ?_⟩
  have hpair : [hexDigit (c.toNat / 16 % 16), hexDigit (c.toNat % 16)] = hexDigits 2 c.toNat := rfl
  rw [strtolHex_pair (isHexDigit_hexDigit (by omega)) (isHexDigit_hexDigit (by omega)), hpair,
    hexNumber_hexDigits c.toNat_lt]
  have hmod : ((c.toNat : ℤ) % 2 ^ 8).toNat = c.toNat := by
    have := c.toNat_lt
    omega
  rw [UInt8.ofInt, hmod, UInt8.ofNat_toNat]

/-- The bytes of the text are all that is written. -/
theorem hex2binLoop_eq (front : Str) {pDest : ℕ} (hbuf : pDest + b.length ≤ szBinBuff.length) :
    hex2binLoop (front ++ hexOf b) b.length front.length pDest szBinBuff =
      some (pDest + b.length, poke pDest b szBinBuff) := by
  induction b generalizing front pDest szBinBuff with
  | nil => rw [poke_nil]; rfl
  | cons c b ih =>
    simp only [List.length_cons] at hbuf
    obtain ⟨d, d', hdigits, hc⟩ := exists_digits c
    have htext : hexOf (c :: b) = d :: d' :: hexOf b := by
      rw [hexOf, List.flatMap_cons, hdigits]
      rfl
    have hd : charAt (front ++ d :: d' :: hexOf b) front.length = some d :=
      charAt_append front _ 0
    have hd' : charAt (front ++ d :: d' :: hexOf b) (front.length + 1) = some d' :=
      charAt_append front _ 1
    have hset : setCharAt szBinBuff pDest c = some (poke pDest [c] szBinBuff) := by
      rw [setCharAt, if_pos (by omega), set_eq_poke (by omega)]
    have hlen : (poke pDest [c] szBinBuff).length = szBinBuff.length :=
      length_poke (by simp; omega)
    have hrest := ih (front ++ [d, d'])
      (show pDest + 1 + b.length ≤ (poke pDest [c] szBinBuff).length by omega)
    rw [List.append_assoc, List.length_append, poke_poke (by simp) (by omega)] at hrest
    rw [htext, List.length_cons, hex2binLoop]
    simp only [hd, hd', hc, hset, Option.bind_eq_bind, Option.bind_some]
    rw [show d :: d' :: hexOf b = [d, d'] ++ hexOf b from rfl,
      show front.length + 2 = front.length + [d, d'].length from rfl, hrest]
    congr 2
    omega

theorem hex2bin_hexOf (hlen : 2 * b.length < 2 ^ 31) (hbuf : b.length + 1 ≤ szBinBuff.length) :
    hex2bin (hexOf b) szBinBuff = some (poke 0 (b ++ [0]) szBinBuff, (b.length : ℤ)) := by
  have hset : ∀ buff : Str, buff.length = szBinBuff.length →
      setCharAt buff b.length 0 = some (poke b.length [0] buff) := by
    intro buff hbuff
    rw [setCharAt, if_pos (by omega), set_eq_poke (by omega)]
  unfold hex2bin
  rw [length_hexOf, toInt_of_lt hlen]
  rcases b with _ | ⟨c, b⟩
  · simp only [List.length_nil, Nat.mul_zero, Nat.cast_zero, if_true]
    rw [show setCharAt szBinBuff 0 0 = _ from hset szBinBuff rfl]
    rfl
  · have hhalf : ((2 * (c :: b).length : ℕ) : ℤ).tdiv 2 = (c :: b).length := by
      rw [Int.tdiv_eq_ediv_of_nonneg (by omega)]
      omega
    have hloop := hex2binLoop_eq []
      (show 0 + (c :: b).length ≤ szBinBuff.length by omega)
    rw [Nat.zero_add, List.nil_append, List.length_nil] at hloop
    rw [if_neg (by simp; omega), hhalf]
    simp only [Int.toNat_natCast, hloop, Option.bind_eq_bind, Option.bind_some,
      hset _ (length_poke (show 0 + (c :: b).length ≤ szBinBuff.length by omega))]
    rw [poke_poke (by simp) (by omega)]

theorem hexOf_cons {c c' : UInt8} (h : IsHexDigit c) (h' : IsHexDigit c') (b : Str) :
    hexOf (UInt8.ofNat (hexNumber [c, c']) :: b) = c :: c' :: hexOf b := by
  have hall : ∀ d ∈ [c, c'], IsHexDigit d := by simp [h, h']
  have hlt := hexNumber_lt [c, c'] hall
  have hdigits := hexDigits_hexNumber [c, c'] hall
  rw [hexOf, List.flatMap_cons, UInt8.toNat_ofNat_of_lt' (by exact hlt)]
  simp only [List.length_cons, List.length_nil] at hdigits
  rw [hdigits]
  rfl

/-- A text of an even number of digits is that of an array. -/
theorem exists_hexOf : ∀ h : Str, h.length % 2 = 0 → (∀ c ∈ h, IsHexDigit c) → ∃ b, hexOf b = h
  | [], _, _ => ⟨[], rfl⟩
  | [_], h, _ => by simp at h
  | c :: c' :: h, hlen, hdigit => by
    simp only [List.length_cons] at hlen
    obtain ⟨b, rfl⟩ := exists_hexOf h (by omega) fun d hd => hdigit d (by simp [hd])
    exact ⟨_, hexOf_cons (hdigit c (by simp)) (hdigit c' (by simp)) b⟩

/-- The length that is told is half of what is left of the length as an `int`. -/
theorem hex2bin_length {h buff : Str} {n : ℤ} (hread : hex2bin h szBinBuff = some (buff, n)) :
    n < 2 ^ 30 := by
  have hlt := toInt_lt h.length
  have htdiv := tdiv_add_tmod (toInt h.length) (b := 2) (by omega)
  unfold hex2bin at hread
  dsimp only at hread
  split_ifs at hread
  · obtain ⟨_, -, hread⟩ := Option.bind_eq_some_iff.1 hread
    obtain ⟨-, rfl⟩ := Prod.mk.inj (Option.some.inj hread)
    decide
  · obtain ⟨_, -, hread⟩ := Option.bind_eq_some_iff.1 hread
    obtain ⟨_, -, hread⟩ := Option.bind_eq_some_iff.1 hread
    obtain ⟨-, rfl⟩ := Prod.mk.inj (Option.some.inj hread)
    by_cases h0 : 0 ≤ toInt h.length
    · rw [Int.tdiv_eq_ediv_of_nonneg h0]
      omega
    · omega

end Reading

/-! ## There and back -/

theorem bytesReturn_iff (b : Str) : BytesReturn b ↔ b.length < 2 ^ 30 := by
  constructor
  · intro h
    obtain ⟨text, htext, -⟩ := h (List.replicate (2 * b.length + 1) 0)
      (List.replicate (b.length + 1) 0) (by simp) (by simp)
    obtain ⟨r, hloop, -⟩ := Option.bind_eq_some_iff.1 htext
    obtain ⟨hn, hfits⟩ := bin2hexLoop_length hloop (by decide)
    unfold InInt at hfits
    omega
  · intro hlen szHexBuff szBinBuff hhex hbin
    have hcut : cString (poke 0 (hexOf b ++ [0]) szHexBuff) = hexOf b := by
      rw [poke_zero, List.append_assoc]
      exact cString_digits isHexDigit_of_mem_hexOf _
    refine ⟨_, bin2hex_eq (by omega) hhex, ?_⟩
    rw [hcut]
    exact ⟨length_hexOf b, rfl, hex2bin_hexOf (by omega) hbin⟩

theorem textReturns_iff {h : Str} (heven : h.length % 2 = 0) (hdigit : ∀ c ∈ h, IsHexDigit c) :
    TextReturns h ↔ h.length < 2 ^ 31 := by
  constructor
  · intro ht
    obtain ⟨b, hb, hread, -⟩ := ht (List.replicate (h.length / 2 + 1) 0)
      (List.replicate (h.length + 1) 0) (by simp) (by simp)
    have hlt := hex2bin_length hread
    omega
  · intro hlen szBinBuff szHexBuff hbin hhex
    obtain ⟨b, rfl⟩ := exists_hexOf h heven hdigit
    rw [length_hexOf] at hlen hbin hhex
    refine ⟨b, ?_, hex2bin_hexOf hlen (by omega), bin2hex_eq hlen hhex⟩
    rw [length_hexOf]
    omega

/-- Arrays and texts return if and only if they are not too long. -/
theorem hexCodec_iff (b : Str) {h : Str} (heven : h.length % 2 = 0)
    (hdigit : ∀ c ∈ h, IsHexDigit c) :
    (BytesReturn b ↔ b.length < 2 ^ 30) ∧ (TextReturns h ↔ h.length < 2 ^ 31) :=
  ⟨bytesReturn_iff b, textReturns_iff heven hdigit⟩

/-- Bytes that are zero, printable, and negative as a `char`. -/
theorem hexCodec_iff_bytes :
    (BytesReturn [0, 65, 255] ↔ ([0, 65, 255] : Str).length < 2 ^ 30) ∧
      (TextReturns (ascii "0041ff") ↔ (ascii "0041ff").length < 2 ^ 31) := by
  have hall : (ascii "0041ff").all (fun c => decide (IsHexDigit c)) = true := by decide
  exact hexCodec_iff [0, 65, 255] (by decide)
    fun c hc => of_decide_eq_true (List.all_eq_true.1 hall c hc)

/-- A gibibyte. -/
theorem hexCodec_false : ¬ ((∀ b : Str, BytesReturn b) ∧
    ∀ h : Str, h.length % 2 = 0 → (∀ c ∈ h, IsHexDigit c) → TextReturns h) := by
  rintro ⟨h, -⟩
  have hlt := (bytesReturn_iff _).1 (h (List.replicate (2 ^ 30) 0))
  rw [List.length_replicate] at hlt
  exact absurd hlt (Nat.lt_irrefl _)

end CLstring

end Longda
