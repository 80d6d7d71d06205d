import Longda.Lang.Lstring
import Longda.Math.Md5

/-!
# Digests of strings, buffers and files

A message given to `MD5Update` in pieces has the digest of the whole message, unless a piece wraps
the block counter, and then no digest at all (`digest_of_pieces`). `MD5File` reads at most 1024
bytes at once and cannot wrap; `MD5Buffer` and `MD5String` make one call that starts on a block.

Two different messages with one digest go through `MD5Transform` on two different arguments with
one image (`collision_of_md5_eq`), the length at the end of the padding being what rules out
everything else.
-/

namespace Longda.Md5

open Lib

variable {xs ys : List UInt8}

/-! ## The callers -/

/-- `MD5String`, by the bytes at `string` and a terminator behind them. The number of those before
the first zero, which `strlen` tells, goes through an `unsigned int`. -/
def md5String (context : Md5Ctx) (string : List UInt8) : Option (List UInt8) := do
  let len := UInt32.ofNat (string.takeWhile (· ≠ 0)).length
  let context ← md5Update (md5Init context) (string ++ [0]) len
  let (digest, _) ← md5Final context
  return digest

/-- `MD5Buffer`. -/
def md5Buffer (context : Md5Ctx) (buffer : List UInt8) (len : UINT4) : Option (List UInt8) := do
  let context ← md5Update (md5Init context) buffer len
  let (digest, _) ← md5Final context
  return digest

/-- The `while` loop of `MD5File`, by what each `fread` returns. -/
def readLoop : Md5Ctx → List (List UInt8) → Option Md5Ctx
  | context, [] => some context
  | context, c :: cs =>
    if 0 < c.length then do
      let context ← md5Update context c (UInt32.ofNat c.length)
      readLoop context cs
    else some context

/-- `MD5File`, which returns `-1` for a file it cannot open. -/
def md5File (context : Md5Ctx) (file : Option (List (List UInt8))) :
    Option (Int32 × Option (List UInt8)) :=
  match file with
  | none => some (-1, none)
  | some reads => do
    let context ← readLoop (md5Init context) reads
    let (digest, _) ← md5Final context
    return (0, some digest)

theorem readLoop_eq (context : Md5Ctx) (cs : List (List UInt8)) :
    readLoop context cs = md5Updates context (cs.takeWhile (0 < ·.length)) := by
  induction cs generalizing context with
  | nil => rfl
  | cons c cs ih =>
    by_cases hc : 0 < c.length
    · rw [readLoop, if_pos hc, List.takeWhile_cons_of_pos (by simpa using hc), md5Updates]
      simp only [ih]
    · rw [readLoop, if_neg hc, List.takeWhile_cons_of_neg (by simpa using hc), md5Updates]

theorem unwrapped_of_small {n : ℕ} {cs : List (List UInt8)} (h : ∀ c ∈ cs, c.length ≤ 1024) :
    Unwrapped n cs := by
  induction cs generalizing n with
  | nil => trivial
  | cons c cs ih =>
    have hc := h c List.mem_cons_self
    exact ⟨by omega, ih fun d hd => h d (List.mem_cons_of_mem _ hd)⟩

/-- One call that starts on a block never wraps. -/
theorem md5Buffer_eq (context : Md5Ctx) {len : UINT4} (h : len.toNat ≤ xs.length) :
    md5Buffer context xs len = some (md5 (xs.take len.toNat)) := by
  have hlen : (xs.take len.toNat).length = len.toNat := by
    rw [List.length_take, Nat.min_eq_left h]
  have hlt := len.toNat_lt
  obtain ⟨context', hupdate, h'⟩ := @md5Update_absorbed (md5Init context) []
    (xs.take len.toNat) (xs.drop len.toNat) len (md5Init_absorbed context) hlen
    (by rw [hlen, List.length_nil]; omega)
  rw [List.take_append_drop] at hupdate
  rw [List.nil_append] at h'
  rw [md5Buffer, hupdate, Option.bind_eq_bind, Option.bind_some, md5Final_absorbed h']
  rfl

/-- A string ends at its first zero, and one of 4 GiB and more is cut. -/
theorem md5String_eq (context : Md5Ctx) (string : List UInt8) :
    md5String context string = some (md5 ((string.takeWhile (· ≠ 0)).take
      ((string.takeWhile (· ≠ 0)).length % 2 ^ 32))) := by
  obtain ⟨rest, hrest⟩ := List.takeWhile_prefix (· ≠ (0 : UInt8)) (l := string)
  generalize hs : string.takeWhile (· ≠ 0) = str at hrest
  have hlen : (UInt32.ofNat str.length).toNat = str.length % 2 ^ 32 := UInt32.toNat_ofNat
  have hle : str.length % 2 ^ 32 ≤ str.length := Nat.mod_le _ _
  have := @md5Buffer_eq (str ++ (rest ++ [0])) context (UInt32.ofNat str.length)
    (by rw [hlen, List.length_append]; omega)
  rw [hlen, List.take_append_of_le_length hle, ← List.append_assoc, hrest] at this
  rw [md5String, hs]
  exact this

theorem md5File_eq (context : Md5Ctx) {reads : List (List UInt8)}
    (h : ∀ c ∈ reads, c.length ≤ 1024) :
    md5File context (some reads) =
      some (0, some (md5 (reads.takeWhile (0 < ·.length)).flatten)) := by
  have hsmall : ∀ c ∈ reads.takeWhile (0 < ·.length), c.length ≤ 1024 := fun c hc =>
    h c (List.takeWhile_subset _ hc)
  obtain ⟨context', hupdates, h'⟩ := md5Updates_absorbed (md5Init_absorbed context)
    (fun c hc => (hsmall c hc).trans_lt (by omega)) (unwrapped_of_small hsmall)
  rw [List.nil_append] at h'
  simp only [md5File, readLoop_eq, hupdates, Option.bind_eq_bind, Option.bind_some,
    md5Final_absorbed h', Option.pure_def]

/-! ## Any pieces -/

/-- The digest of a message does not depend on its pieces, as long as none wraps the block counter;
a message with a piece that does has none. -/
theorem digest_of_pieces (context : Md5Ctx) (cs : List (List UInt8))
    (hcs : ∀ c ∈ cs, c.length < 2 ^ 32) :
    (Unwrapped 0 cs → (md5Updates (md5Init context) cs).bind md5Final =
        some (md5 cs.flatten, zeroized))
      ∧ (¬ Unwrapped 0 cs → md5Updates (md5Init context) cs = none) := by
  have hinit := md5Init_absorbed context
  refine ⟨fun hfit => ?_, fun hwrap => md5Updates_eq_none hinit hcs hwrap⟩
  obtain ⟨context', hupdates, h'⟩ := md5Updates_absorbed hinit hcs hfit
  rw [hupdates, Option.bind_some, md5Final_absorbed h', List.nil_append]

/-- The digest of "abc" taken in as "a", the empty string and "bc". -/
theorem digest_of_pieces_abc :
    (md5Updates (md5Init zeroized) [[97], [], [98, 99]]).bind md5Final =
      some (md5 [97, 98, 99], zeroized) :=
  (digest_of_pieces zeroized [[97], [], [98, 99]] (by simp)).1
    ⟨by decide, by decide, by decide, trivial⟩

example : md5 [97, 98, 99] =
    [0x90, 0x01, 0x50, 0x98, 0x3c, 0xd2, 0x4f, 0xb0, 0xd6, 0x96, 0x3f, 0x7d, 0x28, 0xe1, 0x7f, 0x72]
    := by
  decide +kernel

/-- A file read in any short pieces and a buffer of the same bytes have one digest, and so has a
string of them as far as there is no zero. -/
theorem file_buffer_string_agree (context : Md5Ctx) {reads : List (List UInt8)}
    (hreads : ∀ c ∈ reads, 0 < c.length ∧ c.length ≤ 1024)
    (hlen : reads.flatten.length < 2 ^ 32) :
    md5File context (some reads) = some (0, some (md5 reads.flatten))
      ∧ md5Buffer context reads.flatten (UInt32.ofNat reads.flatten.length) =
        some (md5 reads.flatten)
      ∧ md5String context reads.flatten = some (md5 (reads.flatten.takeWhile (· ≠ 0)))
      ∧ (0 ∉ reads.flatten → md5String context reads.flatten = some (md5 reads.flatten)) := by
  have hnat : (UInt32.ofNat reads.flatten.length).toNat = reads.flatten.length :=
    UInt32.toNat_ofNat_of_lt' hlen
  have hstring : md5String context reads.flatten =
      some (md5 (reads.flatten.takeWhile (· ≠ 0))) := by
    have hle := (List.takeWhile_prefix (· ≠ (0 : UInt8)) (l := reads.flatten)).length_le
    rw [md5String_eq, Nat.mod_eq_of_lt (hle.trans_lt hlen), List.take_length]
  refine ⟨?_, ?_, hstring, fun h0 => ?_⟩
  · rw [md5File_eq context fun c hc => (hreads c hc).2,
      List.takeWhile_eq_self_iff.mpr fun c hc => by simpa using (hreads c hc).1]
  · rw [md5Buffer_eq context hnat.le, hnat, List.take_length]
  · rw [hstring, takeWhile_ne_zero h0]

theorem file_buffer_string_agree_abc :
    md5File zeroized (some [[97], [98, 99]]) = some (0, some (md5 [97, 98, 99]))
      ∧ md5Buffer zeroized [97, 98, 99] 3 = some (md5 [97, 98, 99])
      ∧ md5String zeroized [97, 98, 99] = some (md5 [97, 98, 99]) :=
  have h := @file_buffer_string_agree zeroized [[97], [98, 99]] (by simp) (by simp)
  ⟨h.1, h.2.1, h.2.2.2 (by decide)⟩

/-- A file with a zero in it, and the same bytes as a string. -/
example : (md5File zeroized (some [[97], [0, 98]])).bind Prod.snd = some (md5 [97, 0, 98])
    ∧ md5String zeroized [97, 0, 98] = some (md5 [97]) := by
  decide +kernel

/-! ## Collisions -/

theorem length_padded (xs : List UInt8) : 64 ∣ (padded xs).length ∧ 64 ≤ (padded xs).length := by
  simp only [padded, List.length_append, List.length_cons, List.length_replicate, length_leBytes]
  omega

theorem drop_padded (xs : List UInt8) :
    (padded xs).drop ((padded xs).length - 8) = leBytes 8 (8 * xs.length) := by
  have hlen : (leBytes 8 (8 * xs.length)).length = 8 := length_leBytes _ _
  rw [padded, List.length_append, hlen, Nat.add_sub_cancel, List.drop_left]

/-- The last eight bytes of a padded message tell its length. -/
theorem length_eq_of_drop_padded (hx : xs.length < 2 ^ 61) (hy : ys.length < 2 ^ 61)
    (h : (padded xs).drop ((padded xs).length - 8) = (padded ys).drop ((padded ys).length - 8)) :
    xs.length = ys.length := by
  rw [drop_padded, drop_padded] at h
  have hnat := congrArg leNat h
  rw [leNat_leBytes, leNat_leBytes, Nat.mod_eq_of_lt (by omega),
    Nat.mod_eq_of_lt (by omega)] at hnat
  omega

theorem padded_injective (hx : xs.length < 2 ^ 61) (hy : ys.length < 2 ^ 61)
    (h : padded xs = padded ys) : xs = ys := by
  have hlen := length_eq_of_drop_padded hx hy (by rw [h])
  rw [padded, padded, List.append_assoc, List.append_assoc] at h
  exact List.append_inj_left h hlen

theorem encode_words_injective {s t : Abcd} (h : encode s.words = encode t.words) : s = t := by
  have hword : ∀ {v w : UINT4}, leBytes 4 v.toNat = leBytes 4 w.toNat → v = w := fun {v w} hvw => by
    have hnat := congrArg leNat hvw
    have hv := v.toNat_lt
    have hw := w.toNat_lt
    rw [leNat_leBytes, leNat_leBytes, Nat.mod_eq_of_lt (by omega),
      Nat.mod_eq_of_lt (by omega)] at hnat
    exact UInt32.toNat_inj.mp hnat
  rw [encode_eq, encode_eq] at h
  simp only [Abcd.words, List.flatMap_cons, List.flatMap_nil] at h
  obtain ⟨ha, h⟩ := List.append_inj h (by simp)
  obtain ⟨hb, h⟩ := List.append_inj h (by simp)
  obtain ⟨hc, h⟩ := List.append_inj h (by simp)
  obtain ⟨hd, -⟩ := List.append_inj h (by simp)
  obtain ⟨a, b, c, d⟩ := s
  rw [Abcd.mk.injEq]
  exact ⟨hword ha, hword hb, hword hc, hword hd⟩

/-- Two different messages shorter than `2 ^ 61` bytes are different when padded. They have one
digest only where they come to one state, and their own hashing makes `MD5Transform` collide. -/
theorem collision_of_md5_eq (hx : xs.length < 2 ^ 61) (hy : ys.length < 2 ^ 61) (hne : xs ≠ ys)
    (h : md5 xs = md5 ys) : padded xs ≠ padded ys
      ∧ md5Hash.run (padded xs) = md5Hash.run (padded ys)
      ∧ md5Hash.Collision (padded xs) (padded ys) := by
  refine ⟨fun hpad => hne (padded_injective hx hy hpad), encode_words_injective h, ?_⟩
  have hpx := length_padded xs
  have hpy := length_padded ys
  refine BlockHash.collision_of_run_eq (by decide) hpx.1 hpy.1 (by omega) (by omega) ?_
    (fun hpad => hne (padded_injective hx hy hpad)) (encode_words_injective h)
  intro hlast
  have hlen : xs.length = ys.length := by
    refine length_eq_of_drop_padded hx hy ?_
    have hsplit : ∀ {zs : List UInt8}, 64 ≤ zs.length →
        zs.drop (zs.length - 8) = (zs.drop (zs.length - 64)).drop 56 := fun {zs} hzs => by
      rw [List.drop_drop]
      congr 1
      omega
    rw [hsplit hpx.2, hsplit hpy.2]
    exact congrArg (List.drop 56) hlast
  simp only [padded, List.length_append, List.length_cons, List.length_replicate, length_leBytes,
    hlen]

/-- A known pair of blocks with one digest, by the two bytes they differ in. -/
def collidingBlock (x y : UInt8) : List UInt8 := [
  0x4d, 0xc9, 0x68, 0xff, 0x0e, 0xe3, 0x5c, 0x20, 0x95, 0x72, 0xd4, 0x77, 0x7b, 0x72, 0x15, 0x87,
  0xd3, 0x6f, 0xa7, 0xb2, 0x1b, 0xdc, 0x56, 0xb7, 0x4a, 0x3d, 0xc0, 0x78, 0x3e, 0x7b, 0x95, 0x18,
  0xaf, 0xbf, 0xa2, x, 0xa8, 0x28, 0x4b, 0xf3, 0x6e, 0x8e, 0x4b, 0x55, 0xb3, 0x5f, 0x42, 0x75,
  0x93, 0xd8, 0x49, 0x67, 0x6d, 0xa0, 0xd1, y, 0x5d, 0x83, 0x60, 0xfb, 0x5f, 0x07, 0xfe, 0xa2]

theorem collision_of_md5_eq_collidingBlock : md5Hash.Collision
    (padded (collidingBlock 0x00 0x55)) (padded (collidingBlock 0x02 0xd5)) :=
  (collision_of_md5_eq (by decide) (by decide) (by decide +kernel) (by decide +kernel)).2.2

end Longda.Md5
