import Longda.Lib.LittleEndian
import Mathlib.Data.List.TakeWhile
import Mathlib.Tactic.SplitIfs

/-!
# Reading and writing memory byte by byte

`Peek` is a computation that reads a memory and records where, so that one can say both what it
returns (`val`) and that it stays inside a buffer (`Within`). `poke` writes bytes into a buffer;
writes that follow one another are one write (`poke_poke`). `strncpy` and the C string `cString` of
an array are what the functions of that name leave and read.
-/

namespace Lib

variable {α β : Type}

/-- A computation on memory, with the places it reads. -/
def Peek (α : Type) := (ℕ → UInt8) → α × List ℕ

namespace Peek

def val (x : Peek α) (mem : ℕ → UInt8) : α := (x mem).1

def reads (x : Peek α) (mem : ℕ → UInt8) : List ℕ := (x mem).2

instance : Monad Peek where
  pure a := fun _ => (a, [])
  bind x f := fun mem => ((f (x mem).1 mem).1, (x mem).2 ++ (f (x mem).1 mem).2)

/-- Every place read, whatever the memory holds, lies in `[lo, hi)`. -/
def Within (x : Peek α) (lo hi : ℕ) : Prop := ∀ mem, ∀ i ∈ x.reads mem, lo ≤ i ∧ i < hi

variable {x : Peek α} {f : α → Peek β} {mem : ℕ → UInt8} {a : α} {lo hi lo' hi' : ℕ}

@[simp] theorem val_pure : (pure a : Peek α).val mem = a := rfl

@[simp] theorem val_bind : (x >>= f).val mem = (f (x.val mem)).val mem := rfl

@[simp] theorem val_map {g : α → β} : (g <$> x).val mem = g (x.val mem) := rfl

@[simp] theorem val_ite {c : Prop} [Decidable c] {y : Peek α} :
    (if c then x else y).val mem = if c then x.val mem else y.val mem := by
  split_ifs <;> rfl

theorem reads_bind : (x >>= f).reads mem = x.reads mem ++ (f (x.val mem)).reads mem := rfl

theorem within_pure : (pure a : Peek α).Within lo hi := fun _ _ h => by cases h

theorem Within.bind (hx : x.Within lo hi) (hf : ∀ a, (f a).Within lo hi) :
    (x >>= f).Within lo hi := by
  intro mem i hi
  rw [reads_bind, List.mem_append] at hi
  rcases hi with h | h
  · exact hx mem i h
  · exact hf _ mem i h

theorem Within.map {g : α → β} (hx : x.Within lo hi) : (g <$> x).Within lo hi :=
  hx.bind fun _ => within_pure

theorem Within.mono (hx : x.Within lo hi) (hlo : lo' ≤ lo) (hhi : hi ≤ hi') : x.Within lo' hi' :=
  fun mem i h => ⟨hlo.trans (hx mem i h).1, (hx mem i h).2.trans_le hhi⟩

/-- The byte at a place. -/
def byte (i : ℕ) : Peek UInt8 := fun mem => (mem i, [i])

/-- The bytes of `n` places from one on. -/
def bytes : ℕ → ℕ → Peek (List UInt8)
  | _, 0 => pure []
  | off, n + 1 => do
    let b ← byte off
    let bs ← bytes (off + 1) n
    pure (b :: bs)

theorem within_byte (i : ℕ) : (byte i).Within i (i + 1) := by
  intro mem j hj
  obtain rfl : j = i := by simpa [reads, byte] using hj
  exact ⟨le_rfl, Nat.lt_succ_self _⟩

theorem within_bytes (off n : ℕ) : (bytes off n).Within off (off + n) := by
  induction n generalizing off with
  | zero => exact within_pure
  | succ n ih =>
    refine ((within_byte off).mono le_rfl (by omega)).bind fun _ => Within.bind ?_ fun _ =>
      within_pure
    exact (ih (off + 1)).mono (by omega) (by omega)

theorem val_bytes (off n : ℕ) :
    (bytes off n).val mem = (List.range n).map fun i => mem (off + i) := by
  induction n generalizing off with
  | zero => rfl
  | succ n ih =>
    have hb : (byte off).val mem = mem off := rfl
    simp only [bytes, val_bind, val_pure, ih, hb, List.range_succ_eq_map, List.map_cons,
      List.map_map, Nat.add_zero]
    refine congrArg _ (List.map_congr_left fun i _ => ?_)
    simp only [Function.comp_apply, Nat.succ_eq_add_one]
    congr 1
    omega

theorem length_val_bytes (off n : ℕ) : ((bytes off n).val mem).length = n := by
  rw [val_bytes, List.length_map, List.length_range]

theorem val_bytes_add (off m n : ℕ) : (bytes off (m + n)).val mem
    = (bytes off m).val mem ++ (bytes (off + m) n).val mem := by
  simp only [val_bytes, List.range_add, List.map_append, List.map_map]
  refine congrArg _ (List.map_congr_left fun i _ => ?_)
  simp only [Function.comp_apply, Nat.add_assoc]

end Peek

/-- The memory has these bytes at the offset. -/
def HasAt (mem : ℕ → UInt8) (off : ℕ) (bs : List UInt8) : Prop :=
  (Peek.bytes off bs.length).val mem = bs

theorem hasAt_append {mem : ℕ → UInt8} {off : ℕ} {bs cs : List UInt8} :
    HasAt mem off (bs ++ cs) ↔ HasAt mem off bs ∧ HasAt mem (off + bs.length) cs := by
  unfold HasAt
  rw [List.length_append, Peek.val_bytes_add]
  refine ⟨fun h => List.append_inj h (Peek.length_val_bytes _ _), fun ⟨h, k⟩ => ?_⟩
  rw [h, k]

theorem HasAt.take {mem : ℕ → UInt8} {off n : ℕ} {bs : List UInt8} (h : HasAt mem off bs)
    (hn : n ≤ bs.length) : (Peek.bytes off n).val mem = bs.take n := by
  rw [← List.take_append_drop n bs, hasAt_append] at h
  have := h.1
  rwa [HasAt, List.length_take, Nat.min_eq_left hn] at this

theorem hasAt_getD (bs : List UInt8) : HasAt (fun i => bs.getD i 0) 0 bs := by
  refine List.ext_getElem? fun i => ?_
  rw [Peek.val_bytes, List.getElem?_map]
  by_cases hi : i < bs.length
  · rw [List.getElem?_range hi, List.getElem?_eq_getElem hi]
    simp [hi]
  · rw [List.getElem?_eq_none (by simpa using hi), List.getElem?_eq_none (by simpa using hi)]
    rfl

/-! ## C strings -/

/-- The characters of an array up to its terminator. -/
def cString (s : List UInt8) : List UInt8 := s.takeWhile (· ≠ 0)

/-- The `n` bytes `strncpy(dest, s, n)` leaves at `dest`. -/
def strncpy (n : ℕ) (s : List UInt8) : List UInt8 :=
  (cString s).take n ++ List.replicate (n - (cString s).length) 0

theorem length_strncpy (n : ℕ) (s : List UInt8) : (strncpy n s).length = n := by
  simp only [strncpy, List.length_append, List.length_take, List.length_replicate]
  omega

theorem ne_zero_of_mem_cString {s : List UInt8} {b : UInt8} (h : b ∈ cString s) : b ≠ 0 := by
  simpa using List.mem_takeWhile_imp h

theorem cString_append_zero (s : List UInt8) (h : ∀ b ∈ s, b ≠ 0) (t : List UInt8) :
    cString (s ++ 0 :: t) = s := by
  rw [cString, List.takeWhile_append_of_pos (fun b hb => by simpa using h b hb)]
  simp

theorem cString_eq_self {s : List UInt8} (h : ∀ b ∈ s, b ≠ 0) : cString s = s :=
  List.takeWhile_eq_self_iff.2 fun b hb => by simpa using h b hb

theorem cString_strncpy (n : ℕ) (s : List UInt8) : cString (strncpy n s) = (cString s).take n := by
  have hne : ∀ b ∈ (cString s).take n, b ≠ 0 := fun b hb =>
    ne_zero_of_mem_cString (List.mem_of_mem_take hb)
  rcases hk : n - (cString s).length with _ | k
  · rw [strncpy, hk, List.replicate_zero, List.append_nil, cString_eq_self hne]
  · rw [strncpy, hk, List.replicate_succ, cString_append_zero _ hne]

/-- An array is read as if it ended where it is cut, if the cut is no shorter than what is read. -/
theorem strncpy_congr {n : ℕ} {s t : List UInt8} (h : (cString s).take n = (cString t).take n) :
    strncpy n s = strncpy n t := by
  have hlen := congrArg List.length h
  simp only [List.length_take] at hlen
  rw [strncpy, strncpy, h]
  congr 2
  omega

theorem strncpy_strncpy {m n : ℕ} (h : m ≤ n) (s : List UInt8) :
    strncpy m (strncpy n s) = strncpy m s := by
  refine strncpy_congr ?_
  rw [cString_strncpy, List.take_take, Nat.min_eq_left h]

theorem cString_take (s : List UInt8) (n : ℕ) : cString (s.take n) = (cString s).take n := by
  induction s generalizing n with
  | nil => simp [cString]
  | cons b s ih =>
    cases n with
    | zero => simp [cString]
    | succ n =>
      by_cases h : b = 0
      · simp [cString, h]
      · simpa [cString, h] using ih n

theorem strncpy_take {m n : ℕ} (h : m ≤ n) (s : List UInt8) : strncpy m (s.take n) = strncpy m s :=
  strncpy_congr (by rw [cString_take, List.take_take, Nat.min_eq_left h])

/-- `strncpy` from memory: it reads up to the terminator, and `n` bytes at most. -/
def Peek.strncpy : ℕ → ℕ → Peek (List UInt8)
  | _, 0 => pure []
  | off, n + 1 => do
    let b ← Peek.byte off
    if b = 0 then pure (List.replicate (n + 1) 0)
    else do
      let bs ← Peek.strncpy (off + 1) n
      pure (b :: bs)

theorem Peek.within_strncpy (off n : ℕ) : (Peek.strncpy off n).Within off (off + n) := by
  induction n generalizing off with
  | zero => exact within_pure
  | succ n ih =>
    refine ((within_byte off).mono le_rfl (by omega)).bind fun b => ?_
    split_ifs
    · exact within_pure
    · exact ((ih (off + 1)).mono (by omega) (by omega)).bind fun _ => within_pure

theorem Peek.val_strncpy (mem : ℕ → UInt8) (off n : ℕ) :
    (Peek.strncpy off n).val mem = Lib.strncpy n ((Peek.bytes off n).val mem) := by
  induction n generalizing off with
  | zero => rfl
  | succ n ih =>
    have hb : (Peek.byte off).val mem = mem off := rfl
    simp only [Peek.strncpy, Peek.bytes, val_bind, val_ite, val_pure, ih, hb]
    by_cases h : mem off = 0
    · simp [h, Lib.strncpy, cString]
    · simp [h, Lib.strncpy, cString]

theorem HasAt.val_strncpy {mem : ℕ → UInt8} {off m n : ℕ} {s : List UInt8}
    (h : HasAt mem off (Lib.strncpy m s)) (hn : n ≤ m) :
    (Peek.strncpy off n).val mem = Lib.strncpy n s := by
  have hlen := length_strncpy m s
  rw [Peek.val_strncpy, h.take (by omega), strncpy_take le_rfl, strncpy_strncpy hn]

/-! ## Writing -/

/-- The bytes written into the buffer at an offset. -/
def poke (off : ℕ) (bs buf : List UInt8) : List UInt8 :=
  buf.take off ++ bs ++ buf.drop (off + bs.length)

variable {off : ℕ} {bs cs buf : List UInt8}

theorem length_poke (h : off + bs.length ≤ buf.length) : (poke off bs buf).length = buf.length := by
  simp only [poke, List.length_append, List.length_take, List.length_drop]
  omega

theorem take_poke (h : off ≤ buf.length) :
    (poke off bs buf).take (off + bs.length) = buf.take off ++ bs := by
  rw [poke]
  exact List.take_left' (by rw [List.length_append, List.length_take, Nat.min_eq_left h])

theorem getElem?_poke (h : off ≤ buf.length) (i : ℕ) : (poke off bs buf)[i]? =
    if i < off then buf[i]? else if i < off + bs.length then bs[i - off]? else buf[i]? := by
  have hlen : (buf.take off).length = off := by simpa using h
  rw [poke, List.append_assoc]
  split_ifs with h₁ h₂
  · rw [List.getElem?_append_left (by omega), List.getElem?_take_of_lt h₁]
  · rw [List.getElem?_append_right (by omega), List.getElem?_append_left (by omega), hlen]
  · rw [List.getElem?_append_right (by omega), List.getElem?_append_right (by omega), hlen,
      List.getElem?_drop]
    congr 1
    omega

theorem poke_poke {mid : ℕ} (hmid : mid = off + bs.length) (h : mid ≤ buf.length) :
    poke mid cs (poke off bs buf) = poke off (bs ++ cs) buf := by
  subst hmid
  refine List.ext_getElem? fun i => ?_
  rw [getElem?_poke (by rw [length_poke h]; exact h), getElem?_poke (by omega),
    getElem?_poke (by omega), List.length_append, List.getElem?_append]
  split_ifs <;> first | rfl | omega | skip
  all_goals congr 1; omega

theorem poke_over (h : off + bs.length ≤ buf.length) (hlen : bs.length ≤ cs.length) :
    poke off cs (poke off bs buf) = poke off cs buf := by
  refine List.ext_getElem? fun i => ?_
  rw [getElem?_poke (by rw [length_poke h]; omega), getElem?_poke (by omega),
    getElem?_poke (by omega)]
  split_ifs <;> first | rfl | omega

theorem poke_last {n : ℕ} {b : UInt8} (hlen : bs.length = n + 1)
    (h : off + bs.length ≤ buf.length) :
    poke (off + n) [b] (poke off bs buf) = poke off (bs.take n ++ [b]) buf := by
  have htake : off + n = off + (bs.take n).length := by
    rw [List.length_take]
    omega
  have hsplit : poke off bs buf = poke (off + n) (bs.drop n) (poke off (bs.take n) buf) := by
    rw [poke_poke htake (by omega), List.take_append_drop]
  have hlast : (bs.drop n).length ≤ ([b] : List UInt8).length := by
    rw [List.length_drop, hlen]
    simp
  have hbuf : (poke off (bs.take n) buf).length = buf.length := length_poke (by omega)
  rw [hsplit, poke_over (by rw [hbuf, List.length_drop]; omega) hlast, poke_poke htake (by omega)]

/-- Writes one behind another, the pointer moving on with each. -/
def pokes : ℕ → List (List UInt8) → List UInt8 → List UInt8
  | _, [], buf => buf
  | off, bs :: bss, buf => pokes (off + bs.length) bss (poke off bs buf)

theorem poke_nil : poke off [] buf = buf := by simp [poke]

theorem pokes_eq {bss : List (List UInt8)} (h : off + bss.flatten.length ≤ buf.length) :
    pokes off bss buf = poke off bss.flatten buf := by
  induction bss generalizing off buf with
  | nil => exact poke_nil.symm
  | cons bs bss ih =>
    simp only [List.flatten_cons, List.length_append] at h
    have hlen : (poke off bs buf).length = buf.length := length_poke (by omega)
    rw [pokes, ih (by omega), poke_poke rfl (by omega), List.flatten_cons]

theorem set_eq_poke {b : UInt8} (h : off < buf.length) : buf.set off b = poke off [b] buf := by
  rw [List.set_eq_take_append_cons_drop, if_pos h, poke, List.append_assoc]
  rfl

theorem poke_zero (bs buf : List UInt8) : poke 0 bs buf = bs ++ buf.drop bs.length := by
  simp [poke]

end Lib
