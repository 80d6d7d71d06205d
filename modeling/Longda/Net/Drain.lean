import Longda.Lib.Feeds
import Longda.Net.RecvRun

/-!
# Draining what is left of a frame

`prepare2Drain` posts a first block and counts the blocks in 32 bits; `recvDrain` posts the others,
the last one as long as the remainder of the length by the block size. So several blocks are
drained exactly where that remainder is not zero and the count fits (`drains_iff`).
-/

namespace Longda

open Lib

variable (env : Env)

/-- The connection drains: it waits for `k` bytes. -/
def DrainPosted (w : World) (_ k : ℕ) : Prop :=
  w.mNextRecvPart = .DRAIN ∧ ∃ v, w.mRecvQ = [v] ∧ v.size = k

/-- The connection waits for a header. -/
def HeaderPosted (w : World) : Prop :=
  w.mNextRecvPart = .HEADER ∧ ∃ v, w.mRecvQ = [v] ∧ v.size = HDR_LEN

/-- From `prepare2Drain(n)` the `DRAIN` state consumes exactly `n` bytes, in blocks that are neither
empty nor longer than what is left, and then the connection waits for a header. -/
def Drains (iov : IoVec) (n : UInt64) (w : World) : Prop :=
  Ends (prepare2Drain env iov n) w
    (fun _ => (deliver env).Feeds DrainPosted (fun _ => HeaderPosted) [] n.toNat) fun _ _ => False

variable {env} {w : World} {v : IoVec} {got : List UInt8} {m : ℕ}

theorem forall_length_iff (n : ℕ) (p : Prop) : (∀ data : List UInt8, data.length = n → p) ↔ p :=
  ⟨fun h => h (List.replicate n 0) (by simp), fun h _ _ => h⟩

/-- A connection that waits for a header is not draining. -/
theorem feeds_header_iff (h : HeaderPosted w) :
    (deliver env).Feeds DrainPosted (fun _ => HeaderPosted) got m w ↔ m = 0 := by
  rw [Machine.feeds_iff]
  constructor
  · rintro (⟨rfl, -⟩ | ⟨k, hk, -⟩)
    · rfl
    · exact absurd (h.1.symm.trans hk.1) (by decide)
  · exact fun hm => .inl ⟨hm, h⟩

/-- A draining connection takes the block it waits for and goes on with the rest. -/
theorem feeds_drain_iff (hn : w.mNextRecvPart = .DRAIN) (hq : w.mRecvQ = [v]) :
    (deliver env).Feeds DrainPosted (fun _ => HeaderPosted) got m w ↔ 0 < v.size ∧ v.size ≤ m ∧
      ∀ data : List UInt8, data.length = v.size →
        Ends (recvDrain env (v.fill data)) { w with mRecvQ := [] }
          (fun _ => (deliver env).Feeds DrainPosted (fun _ => HeaderPosted) (got ++ data)
            (m - v.size)) fun _ _ => False := by
  have hstep : ∀ data : List UInt8, data.length = v.size → ∀ P : World → Prop,
      (∃ t, (deliver env).step w data = some t ∧ P t) ↔
        Ends (recvDrain env (v.fill data)) { w with mRecvQ := [] } (fun _ => P)
          fun _ _ => False := by
    intro data hd P
    rw [deliver_exists_iff env hq hd]
    simp [recvCallback, hn]
  rw [Machine.feeds_iff]
  constructor
  · rintro (⟨-, hfin⟩ | ⟨k, ⟨-, u, hu, rfl⟩, h0, hm, h⟩)
    · exact absurd (hn.symm.trans hfin.1) (by decide)
    · obtain rfl : v = u := by simpa [hq] using hu
      exact ⟨h0, hm, fun data hd => (hstep data hd _).1 (h data hd)⟩
  · rintro ⟨h0, hm, h⟩
    exact .inr ⟨v.size, ⟨hn, v, hq, rfl⟩, h0, hm, fun data hd => (hstep data hd _).2 (h data hd)⟩

/-- The last block leaves the connection waiting for a header, if its buffer is granted. -/
theorem ends_recvDrain_last {iov : IoVec} {P : World → Prop} {p : Prop} (hq : w.mRecvQ = [])
    (hr : w.mRecvCb.remainVecs = 1) (hP : ∀ t, HeaderPosted t → (P t ↔ p)) :
    Ends (recvDrain env iov) w (fun _ => P) (fun _ _ => False) ↔ env.mem w.news ∧ p := by
  simp only [recvDrain, ends_bind, ends_modifyCb, ends_getCb, ends_ite, hr, ends_setNextRecv,
    repostIoVec, ends_newChar, ends_postRecv, ends_pure]
  refine ends_iff_of recvErrCb_keeps ?_ fun _ _ => False.elim
  intro _ t ht
  simp only [ht.news]
  split_ifs with hm
  · simp only [hm, true_and]
    exact hP _ ⟨rfl, iov.renew HDR_LEN, by simp [ht.recvQ, hq], rfl⟩
  · simp [hm]

/-- A block that is not the last makes place for the next one, as long as itself or, if that is the
last, as the remainder. -/
theorem ends_recvDrain_next {iov : IoVec} {P : World → Prop} {c : ℕ} (h1 : 1 ≤ c)
    (hc : c < 2 ^ 32) (hq : w.mRecvQ = []) (hr : w.mRecvCb.remainVecs = UInt32.ofNat (c + 1)) :
    Ends (recvDrain env iov) w (fun _ => P) (fun _ _ => False) ↔
      P { w with
        mRecvQ := [iov.renew (if c = 1
          then (w.mRecvCb.drainLen % UInt64.ofNat env.gMaxBlockSize).toUInt32.toNat else iov.size)]
        mRecvCb := { w.mRecvCb with remainVecs := UInt32.ofNat c } } := by
  have hsub : w.mRecvCb.remainVecs - 1 = UInt32.ofNat c := by
    rw [hr, ← UInt32.toNat_inj]
    simp
  have h0 : UInt32.ofNat c ≠ 0 := by
    rw [Ne, ← UInt32.toNat_inj, UInt32.toNat_ofNat_of_lt' hc]
    exact Nat.one_le_iff_ne_zero.1 h1
  have hone : UInt32.ofNat c = 1 ↔ c = 1 := by
    rw [← UInt32.toNat_inj, UInt32.toNat_ofNat_of_lt' hc]
    rfl
  simp only [recvDrain, ends_bind, ends_modifyCb, ends_getCb, ends_ite, hsub, h0, hone, if_false,
    ends_postRecv, ends_pure, hq, List.nil_append]
  split_ifs <;> rfl

/-- From a state with `c` blocks to come, of which the connection waits for the first. -/
theorem feeds_blocks_iff {c : ℕ} (h1 : 1 ≤ c) {r : ℕ} (hc : c ≤ 2 ^ 32)
    (hn : w.mNextRecvPart = .DRAIN) (hq : w.mRecvQ = [v])
    (hr : w.mRecvCb.remainVecs = UInt32.ofNat c)
    (hl : (w.mRecvCb.drainLen % UInt64.ofNat env.gMaxBlockSize).toUInt32.toNat = r) :
    (deliver env).Feeds DrainPosted (fun _ => HeaderPosted) got m w ↔
      env.mem w.news ∧ 0 < v.size ∧ (c = 1 ∧ m = v.size
        ∨ 2 ≤ c ∧ 0 < r ∧ m = (c - 1) * v.size + r) := by
  induction c, h1 using Nat.le_induction generalizing w v got m with
  | base =>
    rw [feeds_drain_iff hn hq]
    have hlast : ∀ data : List UInt8, Ends (recvDrain env (v.fill data)) { w with mRecvQ := [] }
        (fun _ => (deliver env).Feeds DrainPosted (fun _ => HeaderPosted) (got ++ data)
          (m - v.size)) (fun _ _ => False) ↔ env.mem w.news ∧ m - v.size = 0 := fun data =>
      ends_recvDrain_last rfl (by exact hr) fun t ht => feeds_header_iff ht
    simp only [hlast, forall_length_iff]
    constructor
    · rintro ⟨h0, hm, hmem, hz⟩
      exact ⟨hmem, h0, .inl ⟨trivial, by omega⟩⟩
    · rintro ⟨hmem, h0, ⟨-, rfl⟩ | ⟨h, -⟩⟩
      · exact ⟨h0, le_rfl, hmem, Nat.sub_self _⟩
      · omega
  | succ c h1 ih =>
    rw [feeds_drain_iff hn hq]
    have hnext : ∀ data : List UInt8, Ends (recvDrain env (v.fill data)) { w with mRecvQ := [] }
        (fun _ => (deliver env).Feeds DrainPosted (fun _ => HeaderPosted) (got ++ data)
          (m - v.size)) (fun _ _ => False) ↔
        env.mem w.news ∧ 0 < (if c = 1 then r else v.size)
          ∧ (c = 1 ∧ m - v.size = (if c = 1 then r else v.size)
            ∨ 2 ≤ c ∧ 0 < r ∧ m - v.size = (c - 1) * (if c = 1 then r else v.size) + r) := by
      intro data
      rw [ends_recvDrain_next h1 (by omega) rfl (by exact hr), ih (by omega) (by exact hn) rfl rfl
        (by exact hl)]
      simp only [hl, IoVec.renew_size, IoVec.fill_size]
    simp only [hnext, forall_length_iff]
    by_cases hc1 : c = 1
    · subst hc1
      simp only [if_true, true_and]
      constructor
      · rintro ⟨h0, hm, hmem, hr0, heq | ⟨h, -⟩⟩
        · exact ⟨hmem, h0, .inr ⟨le_rfl, hr0, by omega⟩⟩
        · omega
      · rintro ⟨hmem, h0, ⟨h, -⟩ | ⟨-, hr0, heq⟩⟩
        · omega
        · exact ⟨h0, by omega, hmem, hr0, .inl (by omega)⟩
    · have hmul : (c + 1 - 1) * v.size = v.size + (c - 1) * v.size := by
        obtain ⟨d, rfl⟩ := Nat.exists_eq_add_of_le h1
        rw [Nat.add_sub_cancel, Nat.add_sub_cancel_left, Nat.add_mul, Nat.one_mul]
      simp only [hc1, if_false, false_and, false_or, hmul]
      constructor
      · rintro ⟨h0, hm, hmem, -, -, hr0, heq⟩
        exact ⟨hmem, h0, .inr ⟨by omega, hr0, by omega⟩⟩
      · rintro ⟨hmem, h0, ⟨h, -⟩ | ⟨-, hr0, heq⟩⟩
        · omega
        · exact ⟨h0, by omega, hmem, h0, by omega, hr0, by omega⟩

/-! ## The count of the blocks -/

/-- How many blocks a count of `remainVecs` stands for: the counter wraps below zero. -/
def blocksOf (remainVecs : UInt32) : ℕ :=
  if remainVecs = 0 then 2 ^ 32 else remainVecs.toNat

theorem blocksOf_spec (r : UInt32) :
    1 ≤ blocksOf r ∧ blocksOf r ≤ 2 ^ 32 ∧ r = UInt32.ofNat (blocksOf r) := by
  unfold blocksOf
  have := r.toNat_lt
  split_ifs with h
  · exact ⟨by decide, le_rfl, by rw [h]; rfl⟩
  · have h0 : r.toNat ≠ 0 := fun hz => h (UInt32.toNat_inj.1 hz)
    exact ⟨by omega, by omega, by simp⟩

theorem toNat_gMaxBlockSize (env : Env) :
    (UInt64.ofNat env.gMaxBlockSize).toNat = env.gMaxBlockSize :=
  UInt64.toNat_ofNat_of_lt' (env.gMaxBlockSize_lt.trans (by decide))

/-- The remainder by the block size, as the last block has it. -/
theorem toNat_lastBlockSize (env : Env) (n : UInt64) :
    (n % UInt64.ofNat env.gMaxBlockSize).toUInt32.toNat = n.toNat % env.gMaxBlockSize := by
  have hlt : n.toNat % env.gMaxBlockSize < 2 ^ 32 :=
    (Nat.mod_lt _ env.gMaxBlockSize_pos).trans (env.gMaxBlockSize_lt.trans (by decide))
  rw [UInt64.toNat_toUInt32, UInt64.toNat_mod, toNat_gMaxBlockSize]
  exact Nat.mod_eq_of_lt hlt

theorem toNat_blockCount (env : Env) (n : UInt64) :
    (env.blockCount n).toNat
      = (n.toNat + env.gMaxBlockSize - 1) % 2 ^ 64 / env.gMaxBlockSize % 2 ^ 32 := by
  have hB := env.gMaxBlockSize_pos
  rw [Env.blockCount, UInt64.toNat_toUInt32, UInt64.toNat_div, toNat_gMaxBlockSize,
    UInt64.toNat_sub, UInt64.toNat_add, toNat_gMaxBlockSize]
  have h1 : (1 : UInt64).toNat = 1 := rfl
  congr 2
  omega

/-- What fits one block is one block. -/
theorem blockCount_eq_one {n : UInt64} (h0 : 0 < n.toNat) (hle : n.toNat ≤ env.gMaxBlockSize) :
    env.blockCount n = 1 := by
  have hB := env.gMaxBlockSize_lt
  have hone : (n.toNat + env.gMaxBlockSize - 1) / env.gMaxBlockSize = 1 :=
    Nat.div_eq_of_lt_le (by omega) (by omega)
  rw [← UInt32.toNat_inj, toNat_blockCount,
    Nat.mod_eq_of_lt (a := n.toNat + env.gMaxBlockSize - 1) (by omega), hone]
  rfl

/-- The blocks counted are those of the length exactly up to `2 ^ 32` blocks. -/
theorem blocks_iff (env : Env) {n : UInt64} (hn : 0 < n) :
    (blocksOf (env.blockCount n) = 1 ∧ n.toNat = env.blockSize n
        ∨ 2 ≤ blocksOf (env.blockCount n) ∧ 0 < n.toNat % env.gMaxBlockSize
          ∧ n.toNat = (blocksOf (env.blockCount n) - 1) * env.blockSize n
            + n.toNat % env.gMaxBlockSize)
      ↔ n.toNat ≤ env.gMaxBlockSize
        ∨ ¬ env.gMaxBlockSize ∣ n.toNat ∧ n.toNat ≤ 2 ^ 32 * env.gMaxBlockSize := by
  have hB := env.gMaxBlockSize_pos
  have hB' := env.gMaxBlockSize_lt
  have hn0 : 0 < n.toNat := UInt64.lt_iff_toNat_lt.1 hn
  have hcount := toNat_blockCount env n
  obtain ⟨hc1, hc2, hc⟩ := blocksOf_spec (env.blockCount n)
  generalize blocksOf (env.blockCount n) = c at *
  rw [hc, UInt32.toNat_ofNat'] at hcount
  unfold Env.blockSize
  generalize env.gMaxBlockSize = B at *
  generalize n.toNat = N at *
  have hdiv := Nat.div_add_mod N B
  have hmod := Nat.mod_lt N hB
  by_cases hle : N ≤ B
  · -- a single block, as long as the bytes
    have hone : (N + B - 1) / B = 1 := Nat.div_eq_of_lt_le (by omega) (by omega)
    rw [Nat.mod_eq_of_lt (a := N + B - 1) (by omega), hone] at hcount
    refine iff_of_true (.inl ⟨by omega, ?_⟩) (.inl hle)
    split_ifs <;> omega
  · rw [if_neg (by omega), or_iff_right hle]
    constructor
    · rintro (⟨-, rfl⟩ | ⟨-, hr, hN⟩)
      · exact absurd le_rfl hle
      · refine ⟨fun hd => ?_, ?_⟩
        · rw [Nat.mod_eq_zero_of_dvd hd] at hr
          exact lt_irrefl 0 hr
        · calc N ≤ (c - 1) * B + B := by omega
            _ = c * B := by rw [← Nat.succ_mul, Nat.succ_eq_add_one, Nat.sub_add_cancel hc1]
            _ ≤ 2 ^ 32 * B := Nat.mul_le_mul_right _ hc2
    · rintro ⟨hd, hN⟩
      have hr : 0 < N % B := Nat.pos_of_ne_zero fun h => hd (Nat.dvd_of_mod_eq_zero h)
      have hq1 : 1 ≤ N / B := (Nat.one_le_div_iff hB).2 (by omega)
      have hq : N / B < 2 ^ 32 := (Nat.div_lt_iff_lt_mul hB).2 (lt_of_le_of_ne hN fun h =>
        hd (h ▸ Nat.dvd_mul_left B _))
      have hblocks : (N + B - 1) / B = N / B + 1 :=
        Nat.div_eq_of_lt_le (by rw [Nat.add_mul, Nat.mul_comm]; omega)
          (by rw [Nat.add_mul, Nat.add_mul, Nat.mul_comm]; omega)
      rw [Nat.mod_eq_of_lt (a := N + B - 1) (by omega), hblocks] at hcount
      obtain rfl : c = N / B + 1 := by omega
      exact .inr ⟨by omega, hr, by rw [Nat.add_sub_cancel, Nat.mul_comm]; exact hdiv.symm⟩

/-- The bytes drained are those of the blocks counted. -/
theorem drains_blocks_iff (env : Env) (iov : IoVec) (n : UInt64) (w : World) (hn : 0 < n)
    (hq : w.mRecvQ = []) :
    Drains env iov n w ↔ env.mem w.news ∧ env.mem (w.news + 1) ∧
      (blocksOf (env.blockCount n) = 1 ∧ n.toNat = env.blockSize n
        ∨ 2 ≤ blocksOf (env.blockCount n) ∧ 0 < n.toNat % env.gMaxBlockSize
          ∧ n.toNat = (blocksOf (env.blockCount n) - 1) * env.blockSize n
            + n.toNat % env.gMaxBlockSize) := by
  have hpos : 0 < env.blockSize n := blockSize_pos (UInt64.lt_iff_toNat_lt.1 hn)
  obtain ⟨h1, hc, hr⟩ := blocksOf_spec (env.blockCount n)
  simp only [Drains, prepare2Drain, ends_bind, ends_call, hn, if_true, ends_modifyCb,
    repostReusedIoVec, ends_newChar, ends_postRecv, ends_setNextRecv, hq, List.nil_append]
  split_ifs with hm
  · rw [feeds_blocks_iff h1 hc rfl rfl (by exact hr) (by exact toNat_lastBlockSize env n)]
    simp only [hm, true_and, IoVec.renew_size, hpos]
  · simp [hm]

/-- `n` leftover bytes are drained exactly where the two buffers are granted and the bytes fit one
block, or are no multiple of the block size and fit `2 ^ 32` blocks. -/
theorem drains_iff (env : Env) (iov : IoVec) (n : UInt64) (w : World) (hn : 0 < n)
    (hq : w.mRecvQ = []) :
    Drains env iov n w ↔ env.mem w.news ∧ env.mem (w.news + 1) ∧
      (n.toNat ≤ env.gMaxBlockSize
        ∨ ¬ env.gMaxBlockSize ∣ n.toNat ∧ n.toNat ≤ 2 ^ 32 * env.gMaxBlockSize) := by
  rw [drains_blocks_iff env iov n w hn hq, blocks_iff env hn]

theorem drains_hundred : Drains sampleEnv prepareRecvHeader 100 {} :=
  (drains_iff sampleEnv prepareRecvHeader 100 {} (by decide) rfl).2 (by decide)

/-- Two whole blocks: the second is posted with no bytes. -/
theorem not_drains_two_blocks : ¬ Drains sampleEnv prepareRecvHeader 128 {} := by
  rw [drains_blocks_iff sampleEnv prepareRecvHeader 128 {} (by decide) rfl]
  decide

end Longda
