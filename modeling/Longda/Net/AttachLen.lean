import Longda.Net.Framing
import Longda.Net.ConnCb

/-!
# The announced attachment length

The attachment total passes through three integer types: `makeRpcMessage` adds it up in an `int`,
the header holds it as `u64_t`, and the receiver records it as `u32_t`. All three agree with the
sizes of the vectors queued behind the header exactly where the total stays below `2 ^ 31`
(`attLen_agrees_iff`).
-/

namespace Longda

open Lib

variable {μ : Type*} [Serializable μ]

theorem sum_size_ofVec {vs : List VecT} (h : ∀ v ∈ vs, 0 ≤ v.size.toInt) :
    ((vs.map SendVec.ofVec).map fun v => v.size).sum = attTotal vs := by
  induction vs with
  | nil => rfl
  | cons v vs ih =>
    rw [List.map_cons, List.map_cons, List.sum_cons, ih fun w hw => h w (by simp [hw]),
      attTotal_cons]
    simp only [SendVec.ofVec, ofVec_size_of_nonneg (h v (by simp))]

/-! ## Both ends -/

/-- The message is refused before anything is queued: it is missing, too long for a buffer, or does
not serialize. -/
def SendRefused (garbage : ℕ → UInt8) (md : MsgDesc μ) : Prop :=
  md.attachMems.length < 2 ^ 32 ∧ ∀ message, md.message = some message →
    2 ^ 31 ≤ HDR_LEN + Serializable.getSerialSize message ∨
      Serializable.serialize message ((List.range (Serializable.getSerialSize message)).map
        fun i => garbage (HDR_LEN + i)) = none

/-- The header in the first `HDR_LEN` bytes of a vector, as the receiver gets it. -/
def SendVec.header (iov : SendVec) : IoVec := prepareRecvHeader.fill (iov.base.take HDR_LEN)

/-- The length in the header of the batch and the one the receiver records are the sizes of the
vectors queued behind it. -/
def AttLenAgrees (garbage : ℕ → UInt8) (md : MsgDesc μ) (kind : FrameKind) : Prop :=
  ∃ hdr atts, prepareFrame garbage md kind = some (hdr :: atts) ∧
    (PackHeader.decode hdr.header.base).mAttLen.toNat = (atts.map fun v => v.size).sum ∧
    ∀ env w, Ends (recvHeaderCb env hdr.header) w
      (fun _ t => t.mRecvCb.attLen.toNat = (atts.map fun v => v.size).sum)
      fun _ t => t.mRecvCb.attLen.toNat = (atts.map fun v => v.size).sum

theorem sendRefused_iff {garbage : ℕ → UInt8} {md : MsgDesc μ}
    (hn : md.attachMems.length < 2 ^ 32) :
    SendRefused garbage md ↔ makeRpcMessage garbage md = none := by
  unfold SendRefused makeRpcMessage
  rw [and_iff_right hn, if_pos hn]
  rcases md.message with _ | message
  · simp
  · simp only [Option.some.injEq, forall_eq', Option.bind_some]
    split_ifs with hsize
    · rw [or_iff_right (Nat.not_le.2 hsize), Option.map_eq_none_iff]
    · exact iff_of_true (.inl (Nat.not_lt.1 hsize)) rfl

theorem makeRpcMessage_header {garbage : ℕ → UInt8} {md : MsgDesc μ} {iov : SendVec}
    (h : makeRpcMessage garbage md = some iov) :
    iov.header.base.length = HDR_LEN ∧ (PackHeader.decode iov.header.base).isRpc = true
      ∧ (PackHeader.decode iov.header.base).mAttLen
        = (attLenOf md.attachMems).toInt64.toUInt64 := by
  obtain ⟨hdr, msg, -, rfl, hrpc, -, hatt, -⟩ := makeRpcMessage_some h
  simp only [SendVec.header, IoVec.fill_base, List.take_left' (PackHeader.length_encode _),
    PackHeader.decode_encode, PackHeader.length_encode]
  exact ⟨trivial, hrpc, hatt⟩

/-- The receiver records the announced length cut to 32 bits, and whatever comes then keeps it. -/
theorem recvHeaderCb_attLen (env : Env) (iov : IoVec) (hiov : iov.size = HDR_LEN)
    (halloc : iov.alloc = .SYS_ALLOC) (hrpc : (PackHeader.decode iov.base).isRpc = true)
    (w : World) : Ends (recvHeaderCb env iov) w
      (fun _ t => t.mRecvCb.attLen = (PackHeader.decode iov.base).mAttLen.toUInt32)
      fun _ t => t.mRecvCb.attLen = (PackHeader.decode iov.base).mAttLen.toUInt32 := by
  simp only [recvHeaderCb, repostIoVec, ends_bind, ends_ASSERT, hiov, halloc, hrpc,
    beq_self_eq_true, if_true, ends_modifyCb, ends_setNextRecv, ends_newChar, ends_postRecv,
    ends_pure]
  split_ifs

theorem map_toIoVec_modify (cbp : CbParam) (n : ℕ) (iovs : List SendVec) :
    (iovs.modify n (SendVec.setCallback cbp)).map SendVec.toIoVec = iovs.map SendVec.toIoVec := by
  induction iovs generalizing n with
  | nil => cases n <;> rfl
  | cons v vs ih =>
    cases n with
    | zero => rfl
    | succ n => rw [List.modify_succ_cons, List.map_cons, List.map_cons, ih]

theorem attLenAgrees_iff_of_header {garbage : ℕ → UInt8} {md : MsgDesc μ} {kind : FrameKind}
    (h : ∀ v ∈ md.attachMems, 0 ≤ v.size.toInt) (hn : md.attachMems.length < 2 ^ 31) {hdr : SendVec}
    (hhdr : makeRpcMessage garbage md = some hdr) :
    AttLenAgrees garbage md kind ↔ attTotal md.attachMems < 2 ^ 31 := by
  obtain ⟨hlen, hrpc, hatt⟩ := makeRpcMessage_header hhdr
  have hbatch : prepareIovecs garbage md = some (hdr :: md.attachMems.map SendVec.ofVec) := by
    simp only [prepareIovecs, if_pos hn, hhdr, Option.map_some]
  -- the parameter hung on one of the vectors changes neither the header nor a size
  have hparts : ∀ {hdr' : SendVec} {atts : List SendVec},
      prepareFrame garbage md kind = some (hdr' :: atts) → hdr'.header = hdr.header
        ∧ (atts.map fun v => v.size).sum = attTotal md.attachMems := by
    intro hdr' atts hframe
    rw [prepareFrame_eq, hbatch, Option.map_some, Option.some.injEq] at hframe
    have hmap := map_toIoVec_modify (frameParam md kind) md.attachMems.length
      (hdr :: md.attachMems.map SendVec.ofVec)
    rw [hframe, List.map_cons, List.map_cons, List.cons.injEq] at hmap
    refine ⟨by simp only [SendVec.header, hmap.1], ?_⟩
    rw [← sum_size_ofVec h]
    simpa only [List.map_map, Function.comp_def] using
      congrArg (fun l => (l.map IoVec.size).sum) hmap.2
  rw [← attLenOf_eq_attTotal_iff h hn, ← hatt]
  constructor
  · rintro ⟨hdr', atts, hframe, hannounced, -⟩
    obtain ⟨hheader, hsum⟩ := hparts hframe
    rwa [hheader, hsum] at hannounced
  · intro hannounced
    obtain ⟨hdr', atts, hframe⟩ : ∃ hdr' atts,
        prepareFrame garbage md kind = some (hdr' :: atts) := by
      rw [prepareFrame_eq, hbatch, Option.map_some]
      cases md.attachMems.length with
      | zero => exact ⟨_, _, rfl⟩
      | succ n => exact ⟨_, _, rfl⟩
    obtain ⟨hheader, hsum⟩ := hparts hframe
    rw [← hsum, ← hheader] at hannounced
    refine ⟨hdr', atts, hframe, hannounced, fun env w => ?_⟩
    have hcut : (PackHeader.decode hdr'.header.base).mAttLen.toUInt32.toNat
        = (atts.map fun v => v.size).sum := by
      have hlt : attTotal md.attachMems < 2 ^ 31 := by
        rw [← attLenOf_eq_attTotal_iff h hn, ← hatt, ← hheader, hannounced, hsum]
      rw [UInt64.toNat_toUInt32, hannounced, hsum]
      omega
    have hrecv := recvHeaderCb_attLen env hdr'.header rfl rfl (by rw [hheader]; exact hrpc) w
    exact hrecv.mono (fun _ t ht => by rw [ht, hcut]) fun _ t ht => by rw [ht, hcut]

/-- The announced length, the recorded length and the vectors agree below `2 ^ 31` bytes of
attachments, and where nothing is sent. -/
theorem attLen_agrees_iff (garbage : ℕ → UInt8) (md : MsgDesc μ) (kind : FrameKind)
    (h : ∀ v ∈ md.attachMems, 0 ≤ v.size.toInt) :
    SendRefused garbage md ∨ AttLenAgrees garbage md kind
      ↔ SendRefused garbage md ∨
        md.attachMems.length < 2 ^ 31 ∧ attTotal md.attachMems < 2 ^ 31 := by
  refine or_congr_right' fun href => ?_
  by_cases hn : md.attachMems.length < 2 ^ 31
  · rw [and_iff_right hn]
    rcases hhdr : makeRpcMessage garbage md with _ | hdr
    · exact absurd ((sendRefused_iff (by omega)).2 hhdr) href
    · exact attLenAgrees_iff_of_header h hn hhdr
  · refine iff_of_false ?_ fun hc => hn hc.1
    rintro ⟨hdr, atts, hframe, -⟩
    rw [prepareFrame_eq, prepareIovecs, if_neg hn] at hframe
    cases hframe

section Samples

/-- So many gigabytes attached to a one-byte message. -/
def gigaDesc (n : ℕ) : MsgDesc RawMessage where
  message := some { bytes := [1], length_lt := by decide }
  attachMems := List.replicate n { base := [], size := 1073741824 }

theorem attLen_agrees_one : SendRefused (fun _ => 0) (gigaDesc 1)
    ∨ AttLenAgrees (fun _ => 0) (gigaDesc 1) (.request 0 1) :=
  (attLen_agrees_iff _ (gigaDesc 1) (.request 0 1) (by decide)).2 (.inr (by decide))

/-- Two attachments of a gigabyte each are announced as a length that is negative. -/
theorem attLen_disagrees_two : ¬ (SendRefused (fun _ => 0) (gigaDesc 2)
    ∨ AttLenAgrees (fun _ => 0) (gigaDesc 2) (.request 0 1)) := by
  have hmade : makeRpcMessage (fun _ => 0) (gigaDesc 2) = some _ := rfl
  rintro (href | hagree)
  · rw [sendRefused_iff (by decide), hmade] at href
    cases href
  · exact absurd ((attLenAgrees_iff_of_header (by decide) (by decide) hmade).1 hagree) (by decide)

end Samples

end Longda
