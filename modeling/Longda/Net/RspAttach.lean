import Longda.Net.Drain
import Longda.Net.IovUtil

/-!
# The buffers an attachment is received into

`recvPrepareRspAttach` shortens the buffers of the caller where they are more than the attachment
and adds blocks where they are less. The length is a 32-bit unsigned number, and an `int` where the
buffers are shortened: from `2 ^ 31` bytes on it is negative there, and all buffers are posted
empty. Apart from that, and from a number of vectors that is no `int`, the vectors posted are as
long as the attachment together (`laysRspAttach_iff`).
-/

namespace Longda

open Lib

variable {env : Env}

/-- The blocks that `n` bytes take. -/
def Env.blocks (env : Env) (n : ℕ) : ℕ := (n + env.gMaxBlockSize - 1) / env.gMaxBlockSize

section Blocks

variable (env) {n : UInt64} (h0 : 0 < n.toNat)

include h0

theorem blocks_spec : (env.blocks n.toNat - 1) * env.gMaxBlockSize < n.toNat
    ∧ n.toNat ≤ (env.blocks n.toNat - 1) * env.gMaxBlockSize + env.gMaxBlockSize
    ∧ 0 < env.blocks n.toNat := by
  have hB0 := env.gMaxBlockSize_pos
  unfold Env.blocks
  generalize env.gMaxBlockSize = B at *
  generalize n.toNat = N at *
  have hdiv := Nat.div_add_mod (N + B - 1) B
  have hmod := Nat.mod_lt (N + B - 1) hB0
  have hpos : 0 < (N + B - 1) / B := Nat.div_pos (by omega) hB0
  generalize (N + B - 1) / B = c at *
  have hsub : (c - 1) * B + B = B * c := by
    rw [← Nat.succ_mul, Nat.mul_comm B]
    congr 1
    omega
  omega

variable (hn : n.toNat < 2 ^ 32)

include hn

theorem blocks_lt : env.blocks n.toNat < 2 ^ 32 := by
  obtain ⟨hlt, -, -⟩ := blocks_spec env h0
  have := Nat.le_mul_of_pos_right (env.blocks n.toNat - 1) env.gMaxBlockSize_pos
  omega

theorem toNat_blockCount_of_lt : (env.blockCount n).toNat = env.blocks n.toNat := by
  have hB := env.gMaxBlockSize_lt
  rw [toNat_blockCount, Nat.mod_eq_of_lt (a := n.toNat + env.gMaxBlockSize - 1) (by omega)]
  exact Nat.mod_eq_of_lt (blocks_lt env h0 hn)

/-- The size of the last block, in whatever way the `int` product overflows. -/
theorem toInt_lastSize :
    (n - (((env.blockCount n).toInt32 - 1) * Int32.ofNat env.gMaxBlockSize).toInt64.toUInt64
      ).toUInt32.toInt32.toInt
      = ((n.toNat - (env.blocks n.toNat - 1) * env.gMaxBlockSize : ℕ) : ℤ) := by
  obtain ⟨hlt, hle, hpos⟩ := blocks_spec env h0
  have hB := env.gMaxBlockSize_lt
  have hlt32 := blocks_lt env h0 hn
  have hcount := toNat_blockCount_of_lt env h0 hn
  have hfull : (((env.blockCount n).toInt32 - 1) * Int32.ofNat env.gMaxBlockSize).toUInt32
      = (env.blockCount n - 1) * UInt32.ofNat env.gMaxBlockSize := rfl
  have hone : (env.blockCount n - 1).toNat = env.blocks n.toNat - 1 := by
    rw [UInt32.toNat_sub, hcount]
    have h1 : (1 : UInt32).toNat = 1 := rfl
    omega
  have hu : (n - (((env.blockCount n).toInt32 - 1)
      * Int32.ofNat env.gMaxBlockSize).toInt64.toUInt64).toUInt32.toNat
      = n.toNat - (env.blocks n.toNat - 1) * env.gMaxBlockSize := by
    rw [UInt64.toUInt32_sub, toUInt32_toUInt64_toInt64, hfull, UInt32.toNat_sub, UInt32.toNat_mul,
      hone, UInt64.toNat_toUInt32, UInt32.toNat_ofNat']
    rw [Nat.mod_eq_of_lt (a := env.gMaxBlockSize) (by omega),
      Nat.mod_eq_of_lt (a := (env.blocks n.toNat - 1) * env.gMaxBlockSize) (by omega)]
    omega
  generalize (n - _).toUInt32 = x at hu
  rw [← hu]
  rw [toInt_toInt32, Int.bmod_def]
  split_ifs <;> omega

/-- How many vectors `allocAttachIoVecs` makes of `n` bytes, and the bytes they hold. -/
theorem attachMems_spec : (∀ v ∈ env.attachMems n, 0 ≤ v.size.toInt) ∧
    if env.blocks n.toNat ≤ 2 ^ 31 then
      (env.attachMems n).length = env.blocks n.toNat ∧ attTotal (env.attachMems n) = n.toNat
    else (env.attachMems n).length = 1 ∧ attTotal (env.attachMems n) < n.toNat := by
  obtain ⟨hlt, hle, hpos⟩ := blocks_spec env h0
  have hB := env.gMaxBlockSize_lt
  have hlast := toInt_lastSize env h0 hn
  have hcount := toNat_blockCount_of_lt env h0 hn
  have hfull : (Int32.ofNat env.gMaxBlockSize).toInt = env.gMaxBlockSize := by
    have h : (Int32.ofNat env.gMaxBlockSize).toInt = (env.gMaxBlockSize : ℤ).bmod (2 ^ 32) :=
      Int32.toInt_ofNat'
    rw [h, Int.bmod_def]
    split_ifs <;> omega
  have hturns := toInt_toInt32_sub_one (env.blockCount n) (by omega)
  rw [hcount] at hturns
  have htotal : attTotal (env.attachMems n)
      = ((env.blockCount n).toInt32 - 1).toInt.toNat * env.gMaxBlockSize
        + (n.toNat - (env.blocks n.toNat - 1) * env.gMaxBlockSize) := by
    unfold Env.attachMems
    rw [attTotal_append, attTotal_replicate, attTotal_cons, attTotal_nil, hlast, hfull]
    rfl
  have hlen : (env.attachMems n).length
      = ((env.blockCount n).toInt32 - 1).toInt.toNat + 1 := by simp [Env.attachMems]
  rw [htotal, hlen, hturns]
  refine ⟨fun v hv => ?_, ?_⟩
  · unfold Env.attachMems at hv
    rcases List.mem_append.1 hv with hv | hv
    · rw [List.eq_of_mem_replicate hv]
      show 0 ≤ (Int32.ofNat env.gMaxBlockSize).toInt
      rw [hfull]
      exact Int.natCast_nonneg _
    · rw [List.mem_singleton.1 hv]
      show 0 ≤ Int32.toInt _
      rw [hlast]
      exact Int.natCast_nonneg _
  · split_ifs with hblocks
    · exact ⟨by omega, by omega⟩
    · have := Nat.le_mul_of_pos_right (env.blocks n.toNat - 1) env.gMaxBlockSize_pos
      exact ⟨rfl, by omega⟩

end Blocks

/-! ## The buffers of the caller -/

/-- `allocLen`, which wraps where the total does. -/
theorem toNat_allocLen {vs : List VecT} (h : ∀ v ∈ vs, 0 ≤ v.size.toInt) (a : UInt32) :
    (vs.foldl (fun n v => n + v.size.toUInt32) a).toNat = (a.toNat + attTotal vs) % 2 ^ 32 := by
  induction vs generalizing a with
  | nil => exact (Nat.mod_eq_of_lt a.toNat_lt).symm
  | cons v vs ih =>
    rw [List.foldl_cons, ih (fun u hu => h u (List.mem_cons_of_mem v hu)), UInt32.toNat_add,
      toNat_toUInt32_of_nonneg (h v List.mem_cons_self), attTotal_cons]
    omega

/-- The buffer is the caller's, and not larger than it was. -/
def Shrunk (v u : VecT) : Prop :=
  u.base = v.base ∧ 0 ≤ u.size.toInt ∧ u.size.toInt ≤ v.size.toInt

theorem shrunk_refl {vs : List VecT} (h : ∀ v ∈ vs, 0 ≤ v.size.toInt) :
    List.Forall₂ Shrunk vs vs :=
  List.forall₂_same.2 fun v hv => ⟨rfl, h v hv, Int.le_refl _⟩

theorem nonneg_of_shrunk {vs us : List VecT} (h : List.Forall₂ Shrunk vs us) :
    ∀ u ∈ us, 0 ≤ u.size.toInt := by
  induction h with
  | nil => exact fun u hu => absurd hu List.not_mem_nil
  | cons hvu _ ih =>
    intro u hu
    rcases List.mem_cons.1 hu with rfl | hu
    · exact hvu.2.1
    · exact ih u hu

/-- The vectors up to the `turns`-th without a byte. -/
def emptied (turns : ℕ) (vs : List VecT) : List VecT :=
  ((vs.take turns).map fun u => { u with size := 0 }) ++ vs.drop turns

theorem attTotal_take_emptied (turns : ℕ) (vs : List VecT) :
    attTotal ((emptied turns vs).take turns) = 0 := by
  induction vs generalizing turns with
  | nil => cases turns <;> rfl
  | cons v vs ih =>
    cases turns with
    | zero => rfl
    | succ turns => exact (Nat.zero_add _).trans (ih turns)

theorem shrunk_emptied (turns : ℕ) {vs : List VecT} (h : ∀ v ∈ vs, 0 ≤ v.size.toInt) :
    List.Forall₂ Shrunk vs (emptied turns vs) := by
  induction vs generalizing turns with
  | nil => cases turns <;> exact .nil
  | cons v vs ih =>
    have hv := h v List.mem_cons_self
    have hvs := fun u hu => h u (List.mem_cons_of_mem v hu)
    cases turns with
    | zero => exact shrunk_refl h
    | succ turns => exact .cons ⟨rfl, Int.le_refl _, hv⟩ (ih turns hvs)

/-- Nothing is left for any buffer. -/
theorem truncateMems_of_not_pos {leftSize : Int32} (h : ¬leftSize > 0) (turns : ℕ)
    (vs : List VecT) : truncateMems leftSize turns vs = some (emptied turns vs) := by
  cases vs with
  | nil =>
    rw [truncateMems, if_neg h]
    cases turns <;> rfl
  | cons v vs =>
    rw [truncateMems, if_neg h]
    rfl

/-- A length that fits the buffers and an `int` is what they are shortened to. -/
theorem truncateMems_spec (leftSize : Int32) (turns : ℕ) {vs : List VecT}
    (h : ∀ v ∈ vs, 0 ≤ v.size.toInt) (h0 : 0 ≤ leftSize.toInt)
    (hle : leftSize.toInt ≤ attTotal (vs.take turns)) :
    ∃ us, truncateMems leftSize turns vs = some us ∧ List.Forall₂ Shrunk vs us
      ∧ attTotal (us.take turns) = leftSize.toInt.toNat := by
  induction vs generalizing leftSize turns with
  | nil =>
    have hz : leftSize.toInt = 0 := by
      rw [List.take_nil, attTotal_nil] at hle
      omega
    have hn : ¬leftSize > 0 := by
      rw [gt_iff_lt, Int32.lt_iff_toInt_lt, hz]
      exact Int.lt_irrefl 0
    refine ⟨_, truncateMems_of_not_pos hn turns [], shrunk_emptied turns h, ?_⟩
    rw [attTotal_take_emptied, hz]
    rfl
  | cons v vs ih =>
    have hv := h v List.mem_cons_self
    have hvs := fun u hu => h u (List.mem_cons_of_mem v hu)
    by_cases hpos : leftSize > 0
    · have hpos' : 0 < leftSize.toInt := Int32.lt_iff_toInt_lt.1 hpos
      cases turns with
      | zero =>
        rw [List.take_zero, attTotal_nil] at hle
        omega
      | succ turns =>
        rw [List.take_succ_cons, attTotal_cons] at hle
        rw [truncateMems, if_pos hpos]
        by_cases hlt : v.size > leftSize
        · have hlt' : leftSize.toInt < v.size.toInt := Int32.lt_iff_toInt_lt.1 hlt
          rw [if_pos hlt]
          refine ⟨_, rfl, .cons ⟨rfl, h0, by dsimp only; omega⟩ (shrunk_emptied turns hvs), ?_⟩
          show _ + attTotal ((emptied turns vs).take turns) = _
          rw [attTotal_take_emptied]
          rfl
        · have hge : v.size.toInt ≤ leftSize.toInt := by
            rw [gt_iff_lt, Int32.lt_iff_toInt_lt] at hlt
            omega
          have hsub : (leftSize - v.size).toInt = leftSize.toInt - v.size.toInt := by
            have := leftSize.toInt_lt
            have h32 : (leftSize - v.size).toInt = (leftSize.toInt - v.size.toInt).bmod (2 ^ 32) :=
              Int32.toInt_sub _ _
            rw [h32, Int.bmod_def]
            split_ifs <;> omega
          rw [if_neg hlt]
          obtain ⟨us, hus, hshrunk, htotal⟩ :=
            ih (leftSize - v.size) turns hvs (by omega) (by omega)
          refine ⟨v :: us, by rw [Nat.add_sub_cancel, hus]; rfl,
            .cons ⟨rfl, hv, Int.le_refl _⟩ hshrunk, ?_⟩
          rw [List.take_succ_cons, attTotal_cons, htotal]
          omega
    · have hz : leftSize.toInt = 0 := by
        rw [gt_iff_lt, Int32.lt_iff_toInt_lt] at hpos
        have h1 : (0 : Int32).toInt = 0 := rfl
        omega
      refine ⟨_, truncateMems_of_not_pos hpos turns _, shrunk_emptied turns h, ?_⟩
      rw [attTotal_take_emptied, hz]
      rfl

/-! ## What is posted -/

/-- The vectors posted for an attachment of `attLen` bytes, where the caller had `mems` and the
response has `out`. -/
structure Laid (attLen : ℕ) (mems out : List VecT) (posted : List IoVec) (remainVecs : UInt32) :
    Prop where
  sum : (posted.map IoVec.size).sum = attLen
  /-- The caller's buffers come first. -/
  kept : List.Forall₂ Shrunk mems (out.take mems.length)
  order : posted <+: out.map (IoVec.ofVec · .USER_ALLOC)
  /-- None of them has room left where a new one is posted. -/
  filled : mems.length < posted.length → out.take mems.length = mems
  count : remainVecs.toNat = posted.length

theorem sum_ofVec_size {vs : List VecT} (h : ∀ v ∈ vs, 0 ≤ v.size.toInt) (a : AllocT) :
    ((vs.map (IoVec.ofVec · a)).map IoVec.size).sum = attTotal vs := by
  induction vs with
  | nil => rfl
  | cons v vs ih =>
    rw [List.map_cons, List.map_cons, List.sum_cons, ih fun u hu => h u (List.mem_cons_of_mem v hu),
      ofVec_size_of_nonneg (h v List.mem_cons_self), attTotal_cons]

/-- As far as the buffers are in order, it comes down to the bytes of those the counters reach. -/
theorem laid_iff {attLen : ℕ} {mems out : List VecT} (h0 : 0 < attLen)
    (hout : ∀ v ∈ out, 0 ≤ v.size.toInt) (hkept : List.Forall₂ Shrunk mems (out.take mems.length))
    (hfilled : mems.length < out.length → out.take mems.length = mems) :
    Laid attLen mems out ((out.take (intCount out.length)).map (IoVec.ofVec · .USER_ALLOC))
        (UInt32.ofNat out.length)
      ↔ attTotal (out.take (intCount out.length)) = attLen := by
  have htake : ∀ v ∈ out.take (intCount out.length), 0 ≤ v.size.toInt :=
    fun v hv => hout v (List.mem_of_mem_take hv)
  have hsum := sum_ofVec_size htake .USER_ALLOC
  constructor
  · intro h
    rw [← hsum]
    exact h.sum
  · intro h
    refine ⟨hsum.trans h, hkept, ?_, fun hlt => hfilled ?_, ?_⟩
    · exact (List.take_prefix _ _).map _
    · rw [List.length_map, List.length_take] at hlt
      omega
    · rcases length_pushed out with hnil | hlen
      · rw [List.map_eq_nil_iff] at hnil
        rw [hnil, attTotal_nil] at h
        omega
      · exact hlen.symm

/-- What `recvPrepareRspAttach` posts is laid out for the attachment, unless an allocation is
refused and nothing is posted. -/
def LaysRspAttach (env : Env) (cev : EventId) (w : World) : Prop :=
  Ends (recvPrepareRspAttach env cev) w
    (fun _ t => ∃ posted, t.mRecvQ = w.mRecvQ ++ posted
      ∧ Laid w.mRecvCb.attLen.toNat (w.events cev).response.attachMems
        (t.events cev).response.attachMems posted t.mRecvCb.remainVecs)
    fun f t => f = .badAlloc ∧ t.mRecvQ = w.mRecvQ

/-- The bytes of the buffers that the `int` counter reaches. -/
def reached (mems : List VecT) : ℕ := attTotal (mems.take (intCount mems.length))

/-- The buffers `allocAttachIoVecs` makes of `n` bytes. -/
def Env.added (env : Env) (n : ℕ) : ℕ := if env.blocks n ≤ 2 ^ 31 then env.blocks n else 1

/-- The buffers asked for. -/
def Env.asked (env : Env) (attLen : ℕ) (mems : List VecT) : ℕ :=
  if reached mems < attLen then env.added (attLen - reached mems) else 0

/-- The length is an `int` where buffers are to be shortened, and the number of vectors is one where
buffers are to be added. A caller with `2 ^ 31` buffers or more is served if the first ones of
them, as many as the wrapped counter says, happen to be the length. -/
def RspAttachFits (env : Env) (attLen : ℕ) (mems : List VecT) : Prop :=
  (attLen < reached mems → attLen < 2 ^ 31)
    ∧ (reached mems < attLen →
      if mems.length < 2 ^ 31 then mems.length + env.blocks (attLen - reached mems) < 2 ^ 31
      else
        attTotal (mems.take (intCount (mems.length + env.added (attLen - reached mems)))) = attLen)

/-- What is added to the buffers of the caller is what they lack, if the `int` counters reach it. -/
theorem attTotal_added {attLen : ℕ} {mems : List VecT} {n : UInt64} (hlt : reached mems < attLen)
    (hL : attLen < 2 ^ 32) (hn : n.toNat = attLen - reached mems) :
    attTotal ((mems ++ env.attachMems n).take (intCount (mems ++ env.attachMems n).length)) = attLen
      ↔ RspAttachFits env attLen mems := by
  have h0 : 0 < n.toNat := by omega
  obtain ⟨-, hspec⟩ := attachMems_spec env h0 (by omega)
  have hadded : (env.attachMems n).length = env.added n.toNat := by
    unfold Env.added
    split_ifs at hspec ⊢ <;> exact hspec.1
  unfold RspAttachFits
  rw [and_iff_right (fun h => absurd h (by omega)), forall_prop_of_true hlt, ← hn,
    List.length_append]
  have hblocks := blocks_lt env h0 (by omega)
  obtain ⟨-, -, hpos⟩ := blocks_spec env h0
  have hcount := intCount_eq_ite (mems.length + (env.attachMems n).length)
  by_cases hlen : mems.length < 2 ^ 31
  · have hreached : reached mems = attTotal mems := by
      unfold reached
      rw [intCount_eq_ite, if_pos (by omega), Nat.mod_eq_of_lt (by omega), List.take_length]
    rw [if_pos hlen]
    by_cases hfit : mems.length + env.blocks n.toNat < 2 ^ 31
    · rw [if_pos (by omega)] at hspec
      rw [hspec.1] at hcount ⊢
      rw [if_pos (by omega), Nat.mod_eq_of_lt (by omega)] at hcount
      rw [hcount, List.take_of_length_le (by rw [List.length_append, hspec.1]), attTotal_append]
      exact iff_of_true (by omega) hfit
    · refine iff_of_false (fun heq => ?_) hfit
      split_ifs at hspec with h31
      · rw [hspec.1, if_neg (by omega)] at hcount
        rw [hspec.1, hcount, List.take_zero, attTotal_nil] at heq
        omega
      · have := attTotal_take_le (mems ++ env.attachMems n)
          (intCount (mems.length + (env.attachMems n).length))
        rw [heq, attTotal_append] at this
        omega
  · rw [if_neg hlen, ← hadded, List.take_append_of_le_length]
    rw [hcount]
    split_ifs <;> omega

/-- The buffers of the response are the caller's, no larger, and behind them the new ones. -/
structure Fitted (env : Env) (attLen : ℕ) (mems out : List VecT) : Prop where
  nonneg : ∀ v ∈ out, 0 ≤ v.size.toInt
  kept : List.Forall₂ Shrunk mems (out.take mems.length)
  filled : mems.length < out.length → out.take mems.length = mems
  total : attTotal (out.take (intCount out.length)) = attLen ↔ RspAttachFits env attLen mems

section Fit

variable {attLen : UInt32} {mems : List VecT} (w : World) (h : ∀ v ∈ mems, 0 ≤ v.size.toInt)

include h

/-- `allocAttachIoVecs` for what the buffers of the caller lack. -/
theorem allocAttachIoVecs_fitted {n : UInt64} (hlt : reached mems < attLen.toNat)
    (hn : n.toNat = attLen.toNat - reached mems) :
    Ends (allocAttachIoVecs env n) w
      (fun more t => env.Grants w.news (env.asked attLen.toNat mems)
        ∧ (∃ k, t = { w with news := k }) ∧ Fitted env attLen.toNat mems (mems ++ more))
      fun f t => ¬env.Grants w.news (env.asked attLen.toNat mems) ∧ f = .badAlloc
        ∧ t.mRecvQ = w.mRecvQ := by
  have h32 := attLen.toNat_lt
  obtain ⟨hnonneg, hspec⟩ := attachMems_spec env (n := n) (by omega) (by omega)
  have hasked : (env.attachMems n).length = env.asked attLen.toNat mems := by
    unfold Env.asked Env.added
    rw [if_pos hlt, ← hn]
    split_ifs at hspec ⊢ <;> exact hspec.1
  rw [← hasked]
  refine (allocAttachIoVecs_ends env n w).mono ?_ ?_
  · rintro more t ⟨rfl, rfl, hg⟩
    refine ⟨hg, ⟨_, rfl⟩, fun v hv => ?_, ?_, fun _ => List.take_left, attTotal_added hlt h32 hn⟩
    · rcases List.mem_append.1 hv with hv | hv
      · exact h v hv
      · exact hnonneg v hv
    · rw [List.take_left]
      exact shrunk_refl h
  · rintro f t ⟨rfl, hg, k, rfl⟩
    exact ⟨hg, rfl, rfl⟩

theorem fitAttachMems_spec (h0 : 0 < attLen) (htotal : attTotal mems < 2 ^ 32) :
    Ends (fitAttachMems env attLen mems) w
      (fun out t => env.Grants w.news (env.asked attLen.toNat mems)
        ∧ (∃ k, t = { w with news := k }) ∧ Fitted env attLen.toNat mems out)
      fun f t => ¬env.Grants w.news (env.asked attLen.toNat mems) ∧ f = .badAlloc
        ∧ t.mRecvQ = w.mRecvQ := by
  have hlt := attLen.toNat_lt
  have h0' : 0 < attLen.toNat := UInt32.lt_iff_toNat_lt.1 h0
  have hle := attTotal_take_le mems (intCount mems.length)
  have halloc : ((mems.take (intCount mems.length)).foldl (fun n (v : VecT) => n + v.size.toUInt32)
      0).toNat
      = reached mems := by
    rw [toNat_allocLen fun v hv => h v (List.mem_of_mem_take hv)]
    have hz : (0 : UInt32).toNat = 0 := rfl
    rw [hz, Nat.zero_add]
    exact Nat.mod_eq_of_lt (by omega)
  simp only [fitAttachMems, ends_ite, ends_pure, ends_bind]
  split_ifs with hnil heq hgt
  · subst hnil
    exact allocAttachIoVecs_fitted w h h0' (UInt32.toNat_toUInt64 _)
  · rw [← UInt32.toNat_inj, halloc] at heq
    have hasked : env.asked attLen.toNat mems = 0 := if_neg (by omega)
    rw [hasked]
    refine ⟨grants_zero env _, ⟨w.news, rfl⟩, h, ?_, fun hlen => absurd hlen (Nat.lt_irrefl _),
      iff_of_true heq ⟨fun hlt => absurd hlt (by omega), fun hlt => absurd hlt (by omega)⟩⟩
    rw [List.take_length]
    exact shrunk_refl h
  · rw [gt_iff_lt, UInt32.lt_iff_toNat_lt, halloc] at hgt
    have hasked : env.asked attLen.toNat mems = 0 := if_neg (by omega)
    have hint := toInt_toInt32 attLen
    rw [Int.bmod_def] at hint
    have hfits : RspAttachFits env attLen.toNat mems ↔ attLen.toNat < 2 ^ 31 :=
      ⟨fun hf => hf.1 hgt, fun hlt => ⟨fun _ => hlt, fun hlt => absurd hlt (by omega)⟩⟩
    -- below `2 ^ 31` the buffers are shortened to the length, from there on they are emptied
    obtain ⟨out, hout, hshrunk, hiff⟩ : ∃ out,
        truncateMems attLen.toInt32 (intCount mems.length) mems = some out
          ∧ List.Forall₂ Shrunk mems out
          ∧ (attTotal (out.take (intCount mems.length)) = attLen.toNat
            ↔ attLen.toNat < 2 ^ 31) := by
      by_cases h31 : attLen.toNat < 2 ^ 31
      · obtain ⟨out, hout, hshrunk, htot⟩ := truncateMems_spec attLen.toInt32
          (intCount mems.length) h (by split_ifs at hint <;> omega)
          (by unfold reached at hgt; split_ifs at hint <;> omega)
        exact ⟨out, hout, hshrunk, iff_of_true (by split_ifs at hint <;> omega) h31⟩
      · have hneg : ¬attLen.toInt32 > 0 := by
          rw [gt_iff_lt, Int32.lt_iff_toInt_lt]
          have h1 : (0 : Int32).toInt = 0 := rfl
          split_ifs at hint <;> omega
        refine ⟨_, truncateMems_of_not_pos hneg _ mems, shrunk_emptied _ h, ?_⟩
        rw [attTotal_take_emptied]
        exact iff_of_false (by omega) h31
    have hlen := hshrunk.length_eq
    rw [hout]
    refine ⟨by rw [hasked]; exact grants_zero env _, ⟨w.news, rfl⟩, nonneg_of_shrunk hshrunk, ?_,
      fun hlt => absurd hlt (by omega), by rw [← hlen, hfits]; exact hiff⟩
    rw [hlen, List.take_length]
    exact hshrunk
  · rw [← UInt32.toNat_inj, halloc] at heq
    rw [gt_iff_lt, UInt32.lt_iff_toNat_lt, halloc] at hgt
    refine allocAttachIoVecs_fitted w h (by omega) ?_
    rw [UInt32.toNat_toUInt64, UInt32.toNat_sub, halloc]
    omega

end Fit

/-- What is posted is laid out for the attachment, unless an allocation is refused, exactly where
the `int` counters fit it. -/
theorem laysRspAttach_iff (cev : EventId) (w : World) (h0 : 0 < w.mRecvCb.attLen)
    (h : ∀ v ∈ (w.events cev).response.attachMems, 0 ≤ v.size.toInt)
    (htotal : attTotal (w.events cev).response.attachMems < 2 ^ 32) :
    LaysRspAttach env cev w ↔
      (env.Grants w.news (env.asked w.mRecvCb.attLen.toNat (w.events cev).response.attachMems) →
        RspAttachFits env w.mRecvCb.attLen.toNat (w.events cev).response.attachMems) := by
  simp only [LaysRspAttach, recvPrepareRspAttach, ends_bind, ends_getEvent, ends_getCb,
    ends_modifyEvent, pushAttachMessage, ends_modifyCb, ends_postRecvs, ends_setNextRecv]
  refine ends_iff_of (fitAttachMems_spec w h h0 htotal) ?_ ?_
  · rintro out t ⟨hg, ⟨k, rfl⟩, hfit⟩
    rw [forall_prop_of_true hg, ← hfit.total,
      ← laid_iff (UInt32.lt_iff_toNat_lt.1 h0) hfit.nonneg hfit.kept hfit.filled]
    simp only [Function.update_self]
    constructor
    · rintro ⟨posted, hposted, hlaid⟩
      rw [List.append_right_inj] at hposted
      rwa [hposted]
    · exact fun hlaid => ⟨_, rfl, hlaid⟩
  · rintro f t ⟨hg, rfl, hq⟩
    exact iff_of_true ⟨rfl, hq⟩ fun hg' => absurd hg' hg

section Samples

/-- A response whose attachment is so long, with buffers of the caller of so many bytes. -/
def rspWorld (attLen : UInt32) (sizes : List Int32) : World where
  mRecvCb := { attLen := attLen }
  events := fun _ => { response := { attachMems := sizes.map fun n => { base := [], size := n } } }

/-- 40 of 100 bytes are received into a new buffer. -/
theorem laysRspAttach_extended : LaysRspAttach sampleEnv 0 (rspWorld 100 [60]) :=
  (laysRspAttach_iff 0 (rspWorld 100 [60]) (by decide) (by decide) (by decide)).2
    fun _ => ⟨by decide, by decide⟩

/-- Two buffers that are enough for `2 ^ 31` bytes are posted empty. -/
theorem not_laysRspAttach_emptied :
    0 < (rspWorld 2147483648 [2147483647, 2147483647]).mRecvCb.attLen
    ∧ (∀ v ∈ ((rspWorld 2147483648 [2147483647, 2147483647]).events 0).response.attachMems,
      0 ≤ v.size.toInt)
    ∧ attTotal ((rspWorld 2147483648 [2147483647, 2147483647]).events 0).response.attachMems
      < 2 ^ 32
    ∧ ¬LaysRspAttach sampleEnv 0 (rspWorld 2147483648 [2147483647, 2147483647]) := by
  refine ⟨by decide, by decide, by decide, fun h => ?_⟩
  obtain ⟨posted, hposted, hlaid⟩ := h
  have hsum := hlaid.sum
  obtain rfl : posted = [_, _] := hposted.symm
  exact absurd hsum (by decide)

end Samples

end Longda
