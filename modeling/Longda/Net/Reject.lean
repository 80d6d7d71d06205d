import Mathlib.Data.UInt
import Longda.Net.RecvFile

/-!
# What a rejection accounts for

`receive` follows the reception of one frame: it remembers the header and how many bytes of the
body have been taken. A path that rejects the frame should hand `prepare2Drain` the bytes that are
left, or close the connection. The paths of the `HEADER` and `MESSAGE` states hand over a sum of the
lengths in the parameter, which keeps 32 bits of the attachment length and wraps at 64 bits; the
path of a file block that cannot be written hands over nothing (`accounts_iff`).
-/

namespace Longda

open Lib

/-- The reception of a frame: the header once it is read and the bytes taken behind it. -/
structure Reception where
  world : World
  hdr : Option PackHeader := none
  taken : ℕ := 0

variable (env : Env)

/-- The callbacks of one frame, from its header until the connection awaits the next. -/
def receive : Machine Reception (List UInt8) where
  step r data :=
    match r.hdr with
    | none => ((deliver env).step r.world data).map fun w =>
        { world := w, hdr := some (PackHeader.decode data) }
    | some hdr =>
      if r.world.mNextRecvPart = .HEADER then none
      else ((deliver env).step r.world data).map fun w =>
        { world := w, hdr := some hdr, taken := r.taken + data.length }

/-- The bytes of the frame that are still to come behind `data`. -/
def Reception.rest (r : Reception) (data : List UInt8) : ℕ :=
  match r.hdr with
  | none => (PackHeader.decode data).bodyLen
  | some hdr => hdr.bodyLen - (r.taken + data.length)

inductive Rejection where
  | headerType
  | undecodable
  | neitherKind
  | unknownId
  | notWritten
  deriving DecidableEq, Repr

/-- The callback entered with `data` rejects the frame for this reason. -/
def Rejects (r : Reception) (data : List UInt8) : Rejection → Prop
  | .headerType => r.hdr = none ∧ (PackHeader.decode data).isRpc = false
  | .undecodable => r.world.mNextRecvPart = .MESSAGE
      ∧ env.deserialize data (UInt64.ofNat data.length).toUInt32.toInt32 = none
  | .neitherKind => r.world.mNextRecvPart = .MESSAGE ∧ ∃ mId,
      env.deserialize data (UInt64.ofNat data.length).toUInt32.toInt32 = some (.other mId)
  | .unknownId => r.world.mNextRecvPart = .MESSAGE ∧ ∃ mId mStatus,
      env.deserialize data (UInt64.ofNat data.length).toUInt32.toInt32
        = some (.response mId mStatus) ∧ r.world.mSendEventMap.lookup mId.toUInt32 = none
  | .notWritten => r.world.mNextRecvPart = .ATTACHFILE ∧
      (env.disk r.world.writes = .notOpened
        ∨ data ≠ [] ∧ ∃ n, env.disk r.world.writes = .short n)

/-- The numbers handed to `prepare2Drain` between two states. -/
def handed (w t : World) : List UInt64 :=
  (t.calls.drop w.calls.length).filterMap fun c =>
    match c with
    | .prepare2Drain n => some n
    | _ => none

/-- The callback closes the connection or hands over exactly what is left of the frame, and the
client event whose response is being received is completed once. -/
def AccountsIn (r : Reception) (data : List UInt8) (t : World) : Prop :=
  ((r.world.mCleaning = false ∧ t.mCleaning = true)
      ∨ ∃ n, handed r.world t = [n] ∧ n.toNat = r.rest data)
    ∧ ∀ cev, r.hdr ≠ none → r.world.mRecvCb.cev = some cev →
      (r.world.events cev).serverGen = false → delivered cev t = delivered cev r.world + 1

/-- The callback that rejects accounts for the frame however it ends. -/
def Accounts (r : Reception) (data : List UInt8) : Prop :=
  ∀ v q, r.world.mRecvQ = v :: q →
    Ends (recvCallback env (v.fill data) .DONE) { r.world with mRecvQ := q }
      (fun _ => AccountsIn r data) fun _ => AccountsIn r data

/-- The lengths for which the rejecting path counts right. -/
def Fits (r : Reception) (data : List UInt8) : Rejection → Prop
  | .headerType =>
    (PackHeader.decode data).mAttLen.toNat < 2 ^ 32 ∧ (PackHeader.decode data).bodyLen < 2 ^ 64
  | .undecodable => env.mem r.world.news ∧ ∀ hdr, r.hdr = some hdr →
      hdr.mAttLen.toNat < 2 ^ 32 ∧ hdr.mAttLen.toNat + hdr.mFileLen.toNat < 2 ^ 64
  | .neitherKind => ∀ hdr, r.hdr = some hdr →
      hdr.mAttLen.toNat < 2 ^ 32 ∧ hdr.mAttLen.toNat + hdr.mFileLen.toNat < 2 ^ 64
  | .unknownId => ∀ hdr, r.hdr = some hdr →
      hdr.mAttLen.toNat < 2 ^ 32 ∧ hdr.mAttLen.toNat + hdr.mFileLen.toNat < 2 ^ 64
  | .notWritten => False

/-- What the reception knows: before the header one is awaited, and the message behind it is
received with the lengths it announced. -/
def Follows (r : Reception) : Prop :=
  match r.hdr with
  | none => HeaderPosted r.world
  | some hdr => r.world.mNextRecvPart = .MESSAGE →
      (∃ v, r.world.mRecvQ = [v] ∧ v.size = hdr.mMsgLen.toNat) ∧ r.taken = 0
        ∧ r.world.mRecvCb = { attLen := hdr.mAttLen.toUInt32, fileLen := hdr.mFileLen }

variable {env} {w : World} {iov : IoVec}

/-! ## The message is read once -/

theorem prepare2Drain_next (n : UInt64) :
    Ends (prepare2Drain env iov n) w (fun _ t => t.mNextRecvPart ≠ .MESSAGE)
      fun _ _ => True := by
  simp only [prepare2Drain, ends_bind, ends_call, ends_ite, ends_modifyCb, repostReusedIoVec,
    ends_newChar, ends_postRecv, ends_setNextRecv, repostIoVec]
  split_ifs
  · decide
  · refine recvErrCb_keeps.mono ?_ fun _ _ => False.elim
    intro _ _ _
    split_ifs
    decide

theorem checkEventReady_next :
    Ends (checkEventReady env true iov) w (fun _ t => t.mNextRecvPart ≠ .MESSAGE)
      fun _ _ => True :=
  checkEventReady_header.mono_ok fun _ _ h => by rw [h]; decide

theorem recvReqMsg_next (mId : UInt64) :
    Ends (recvReqMsg env mId iov) w (fun _ t => t.mNextRecvPart ≠ .MESSAGE) fun _ _ => True := by
  simp only [recvReqMsg, ends_bind, ends_getCb, ends_ite, ends_pure, ends_ASSERT,
    ends_newServerEvent, ends_modifyCb, ends_setNextRecv, pushAttachMessage, ends_postRecvs]
  split_ifs
  · refine (allocAttachIoVecs_ends env _ w).mono ?_ fun _ _ _ => trivial
    intro mems t _
    split_ifs
    simp
  · simp only [ends_recvPrepareFileIov, ends_checkEventReady_false]
    split_ifs
    simp
  · exact checkEventReady_next

theorem recvRspEvent_next (cev : EventId) (mId : UInt64) (mStatus : Int32) :
    Ends (recvRspEvent env cev mId mStatus iov) w (fun _ t => t.mNextRecvPart ≠ .MESSAGE)
      fun _ _ => True := by
  simp only [recvRspEvent, ends_bind, ends_getCb, ends_ite, ends_pure, ends_ASSERT,
    ends_modifyCb, ends_modifyEvent]
  split_ifs
  · simp only [recvPrepareRspAttach, ends_bind, ends_getEvent, ends_getCb, ends_modifyEvent,
      pushAttachMessage, ends_modifyCb, ends_postRecvs, ends_setNextRecv,
      ends_checkEventReady_false]
    exact ends_true.mono_ok fun _ _ _ => by decide
  · simp only [ends_recvPrepareFileIov, ends_checkEventReady_false]
    split_ifs
    simp
  · exact checkEventReady_next

theorem recvFile_next (hn : w.mNextRecvPart ≠ .MESSAGE) :
    Ends (recvFile env iov) w (fun _ t => t.mNextRecvPart ≠ .MESSAGE) fun _ _ => True := by
  have hname : ∀ cbp first, Ends (recvFileName env cbp first) w
      (fun _ t => t.mNextRecvPart = w.mNextRecvPart) fun _ _ => True := by
    intro cbp first
    unfold recvFileName
    cases first with
    | false => rfl
    | true =>
      cases cbp.cev with
      | none => trivial
      | some cev => rfl
  have hwrite : ∀ fileName data append u, Ends (writeToFile env fileName data append) u
      (fun _ t => t.mNextRecvPart = u.mNextRecvPart) fun _ _ => True := by
    intro fileName data append u
    simp only [writeToFile, ends_bind, ends_get]
    cases env.disk u.writes <;> rfl
  simp only [recvFile, ends_bind, ends_getCb]
  refine (hname _ _).mono_ok fun fileName u hu => (hwrite fileName _ _ u).mono_ok fun ok t ht => ?_
  have hidle : t.mNextRecvPart ≠ .MESSAGE := by rwa [ht, hu]
  cases ok with
  | false => exact hidle
  | true =>
    simp only [if_true, ends_bind, ends_modifyCb, ends_ite, ends_pure]
    by_cases hr : w.mRecvCb.remainVecs - 1 = 0
    · simp only [hr, if_true]
      exact checkEventReady_next
    · simp only [hr, if_false]
      exact hidle

/-- Behind its header a frame does not come to its message again. -/
theorem recvCallback_next (hn : w.mNextRecvPart ≠ .HEADER) :
    Ends (recvCallback env iov .DONE) w (fun _ t => t.mNextRecvPart ≠ .MESSAGE)
      fun _ _ => True := by
  simp only [recvCallback, ends_bind, ends_getNextRecv]
  cases hp : w.mNextRecvPart with
  | HEADER => exact absurd hp hn
  | MESSAGE =>
    simp only [recvMessageCb]
    rcases env.deserialize iov.base _ with _ | mId | ⟨mId, mStatus⟩ | mId
    · simp only [sendBadMsgErr, ends_bind, ends_newChar, ends_call, ends_getCb, ends_pure]
      split_ifs
      exact prepare2Drain_next _
    · simp only [ends_bind, ends_getCb, ends_ite, ends_pure]
      refine (recvReqMsg_next mId).mono_ok fun rc t ht => ?_
      split_ifs
      · exact prepare2Drain_next _
      · exact ht
    · simp only [recvRspMsg, ends_bind, ends_getAndRmEvent, ends_getCb, ends_ite, ends_pure]
      cases w.mSendEventMap.lookup mId.toUInt32 with
      | none => exact prepare2Drain_next _
      | some cev =>
        refine (recvRspEvent_next cev mId mStatus).mono_ok fun rc t ht => ?_
        split_ifs
        · exact prepare2Drain_next _
        · exact ht
    · simp only [ends_bind, ends_getCb, ends_pure]
      exact prepare2Drain_next _
  | ATTACHMENT =>
    simp only [recvAttachCb, ends_bind, ends_modifyCb, ends_getCb, ends_ite, ends_pure, recvAttach,
      ends_recvPrepareFileIov, ends_checkEventReady_false]
    split_ifs
    · exact checkEventReady_next
    · simp
    · simp [hp]
  | ATTACHFILE =>
    exact recvFile_next (by rw [hp]; decide)
  | DRAIN =>
    simp only [recvDrain, ends_bind, ends_modifyCb, ends_getCb, ends_ite, ends_setNextRecv,
      repostIoVec, ends_newChar, ends_postRecv, ends_pure]
    split_ifs
    · refine recvErrCb_keeps.mono ?_ fun _ _ => False.elim
      intro _ _ _
      split_ifs
      simp
    · simp [hp]
    · simp [hp]

/-- The lengths of the message behind a header are those of the header. -/
theorem recvHeaderCb_follows (hq : w.mRecvQ = []) {data : List UInt8} :
    Ends (recvHeaderCb env (iov.fill data)) w
      (fun _ t => Follows { world := t, hdr := some (PackHeader.decode data) })
      fun _ _ => True := by
  simp only [recvHeaderCb, ends_bind, ends_ASSERT, ends_modifyCb]
  split_ifs
  · simp only [ends_bind, ends_ASSERT, ends_setNextRecv, repostIoVec, ends_newChar, ends_postRecv,
      ends_pure]
    split_ifs
    exact fun _ => ⟨⟨_, by rw [hq, List.nil_append], rfl⟩, rfl, rfl⟩
  · simp only [ends_bind, ends_getCb, ends_pure]
    exact (prepare2Drain_next _).mono_ok fun _ t h h' => absurd h' h

theorem receive_follows {r r' : Reception} {data : List UInt8} (hr : Follows r)
    (hs : (receive env).step r data = some r') : Follows r' := by
  simp only [receive] at hs
  cases hh : r.hdr with
  | none =>
    simp only [hh] at hs
    obtain ⟨w, hw, rfl⟩ := Option.map_eq_some_iff.1 hs
    obtain ⟨v, q, rc, hq, -, hx⟩ := (deliver_eq_some env).1 hw
    simp only [Follows, hh] at hr
    obtain ⟨hn, u, hu, -⟩ := hr
    rw [hq, List.cons.injEq] at hu
    obtain ⟨rfl, rfl⟩ := hu
    have hcb : Ends (recvCallback env (v.fill data) .DONE) { r.world with mRecvQ := [] }
        (fun _ t => Follows { world := t, hdr := some (PackHeader.decode data) })
        fun _ _ => True := by
      simp only [recvCallback, ends_bind, ends_getNextRecv, hn]
      exact recvHeaderCb_follows rfl
    exact hcb.ok hx
  | some hdr =>
    simp only [hh] at hs
    split_ifs at hs with hn
    obtain ⟨w, hw, rfl⟩ := Option.map_eq_some_iff.1 hs
    obtain ⟨v, q, rc, hq, -, hx⟩ := (deliver_eq_some env).1 hw
    exact fun h => absurd h ((recvCallback_next (by exact hn)).ok hx)

/-! ## What is handed over -/

theorem prepare2Drain_calls (hc : w.mRecvCb.cev = none) (n : UInt64) :
    Ends (prepare2Drain env iov n) w
      (fun _ t => t.calls = w.calls ++ [.prepare2Drain n] ∧ t.mCleaning = w.mCleaning)
      fun _ t => t.calls = w.calls ++ [.prepare2Drain n] ∧ t.mCleaning = w.mCleaning := by
  simp only [prepare2Drain, ends_bind, ends_call, ends_ite, ends_modifyCb, repostReusedIoVec,
    ends_newChar, ends_postRecv, ends_setNextRecv, repostIoVec, recvErrCb, hc, ends_getCb,
    ends_pure, and_self, ite_self]

/-- Where no event is being received, the frame is accounted for exactly where the number handed
over is what is left. -/
theorem accountsIn_iff {r : Reception} {data : List UInt8} {t : World} {pre : List Call}
    {n : UInt64} (hc : r.hdr = none ∨ r.world.mRecvCb.cev = none)
    (hcalls : t.calls = r.world.calls ++ pre ++ [.prepare2Drain n])
    (hpre : ∀ c ∈ pre, ∀ m, c ≠ .prepare2Drain m) (hclean : t.mCleaning = r.world.mCleaning) :
    AccountsIn r data t ↔ n.toNat = r.rest data := by
  have hnone : pre.filterMap (fun c =>
      match c with
      | .prepare2Drain n => some n
      | _ => none) = [] := by
    rw [List.filterMap_eq_nil_iff]
    intro c hcm
    cases c with
    | prepare2Drain m => exact absurd rfl (hpre _ hcm m)
    | _ => rfl
  have hhanded : handed r.world t = [n] := by
    simp [handed, hcalls, List.append_assoc, hnone]
  simp only [AccountsIn, hhanded, hclean]
  constructor
  · rintro ⟨⟨h, h'⟩ | ⟨m, hm, hn⟩, -⟩
    · simp [h] at h'
    · obtain rfl : n = m := by simpa using hm
      exact hn
  · refine fun h => ⟨.inr ⟨n, rfl, h⟩, fun cev hh hcev => ?_⟩
    rcases hc with hc | hc
    · exact absurd hc hh
    · simp [hc] at hcev

/-- A sum of the lengths as the parameter has them is the true one exactly where the attachment
length fits 32 bits and the sum 64. -/
theorem sum_lengths_iff (a b c : UInt64) :
    (a + b.toUInt32.toUInt64 + c).toNat = a.toNat + b.toNat + c.toNat
      ↔ b.toNat < 2 ^ 32 ∧ a.toNat + b.toNat + c.toNat < 2 ^ 64 := by
  have hc := c.toNat_lt
  have hb : b.toUInt32.toUInt64.toNat = b.toNat % 2 ^ 32 := by simp
  rw [UInt64.toNat_add, UInt64.toNat_add, hb]
  omega

theorem ends_accounts_iff {r : Reception} {data : List UInt8} {pre : List Call} {n : UInt64}
    {x : RecvM ConnStatus} {q : List IoVec} (hc : r.hdr = none ∨ r.world.mRecvCb.cev = none)
    (hpre : ∀ c ∈ pre, ∀ m, c ≠ .prepare2Drain m)
    (hx : Ends x { r.world with mRecvQ := q }
      (fun _ t => t.calls = r.world.calls ++ pre ++ [.prepare2Drain n]
        ∧ t.mCleaning = r.world.mCleaning)
      fun _ t => t.calls = r.world.calls ++ pre ++ [.prepare2Drain n]
        ∧ t.mCleaning = r.world.mCleaning) :
    Ends x { r.world with mRecvQ := q } (fun _ => AccountsIn r data) (fun _ => AccountsIn r data)
      ↔ n.toNat = r.rest data := by
  exact ends_iff_of hx (fun _ _ h => accountsIn_iff hc h.1 hpre h.2)
    fun _ _ h => accountsIn_iff hc h.1 hpre h.2

/-- A callback that hands over nothing does not account for the frame. -/
theorem not_ends_accounts {r : Reception} {data : List UInt8} {x : RecvM ConnStatus}
    {q : List IoVec}
    (hx : Ends x { r.world with mRecvQ := q }
      (fun _ t => t.calls = r.world.calls ∧ t.mCleaning = r.world.mCleaning)
      fun _ t => t.calls = r.world.calls ∧ t.mCleaning = r.world.mCleaning) :
    ¬ Ends x { r.world with mRecvQ := q } (fun _ => AccountsIn r data)
      fun _ => AccountsIn r data := by
  have hno : ∀ t : World, t.calls = r.world.calls ∧ t.mCleaning = r.world.mCleaning →
      (AccountsIn r data t ↔ False) := by
    rintro t ⟨hcalls, hclean⟩
    rw [iff_false]
    rintro ⟨⟨h, h'⟩ | ⟨n, hn, -⟩, -⟩
    · rw [hclean, h] at h'
      cases h'
    · simp [handed, hcalls] at hn
  exact (ends_iff_of hx (fun _ t => hno t) fun _ t => hno t).1

/-- A block that cannot be written ends the callback with nothing handed over. -/
theorem recvFile_not_written {data : List UInt8} (hd : data.length = iov.size)
    (hdisk : env.disk w.writes = .notOpened ∨ data ≠ [] ∧ ∃ n, env.disk w.writes = .short n) :
    Ends (recvFile env (iov.fill data)) w
      (fun _ t => t.calls = w.calls ∧ t.mCleaning = w.mCleaning)
      fun _ t => t.calls = w.calls ∧ t.mCleaning = w.mCleaning := by
  have hname : ∀ cbp first, Ends (recvFileName env cbp first) w
      (fun _ t => t.calls = w.calls ∧ t.mCleaning = w.mCleaning ∧ t.writes = w.writes)
      fun _ t => t.calls = w.calls ∧ t.mCleaning = w.mCleaning := by
    intro cbp first
    unfold recvFileName
    cases first with
    | false => exact ⟨rfl, rfl, rfl⟩
    | true =>
      cases cbp.cev with
      | none => exact ⟨rfl, rfl⟩
      | some cev => exact ⟨rfl, rfl, rfl⟩
  have htake : data.take iov.size = data := List.take_of_length_le hd.le
  simp only [recvFile, ends_bind, ends_getCb, IoVec.fill_base, IoVec.fill_size, htake]
  refine (hname _ _).mono_ok ?_
  rintro fileName t ⟨hcalls, hclean, hwrites⟩
  simp only [writeToFile, ends_bind, ends_get, hwrites]
  rcases hdisk with h | ⟨hne, n, h⟩
  · simp only [h, ends_bind, ends_set, ends_pure]
    exact ⟨hcalls, hclean⟩
  · have hempty : data.isEmpty = false := by simpa using hne
    simp only [h, ends_bind, ends_set, ends_pure, hempty]
    exact ⟨hcalls, hclean⟩

theorem leftSize_iff (a b : UInt64) :
    (a.toUInt32.toUInt64 + b).toNat = a.toNat + b.toNat
      ↔ a.toNat < 2 ^ 32 ∧ a.toNat + b.toNat < 2 ^ 64 := by
  simpa using sum_lengths_iff 0 a b

theorem accounts_header {r : Reception} {v : IoVec} {data : List UInt8} (hh : r.hdr = none)
    (hn : r.world.mNextRecvPart = .HEADER) (hsize : v.size = HDR_LEN)
    (hrpc : (PackHeader.decode data).isRpc = false) :
    Ends (recvCallback env (v.fill data) .DONE) { r.world with mRecvQ := [] }
        (fun _ => AccountsIn r data) (fun _ => AccountsIn r data) ↔
      (PackHeader.decode data).mAttLen.toNat < 2 ^ 32
        ∧ (PackHeader.decode data).bodyLen < 2 ^ 64 := by
  have hpre : ∀ c ∈ ([] : List Call), ∀ m, c ≠ .prepare2Drain m := by simp
  rw [ends_accounts_iff (.inl hh) hpre
    (n := (PackHeader.decode data).mMsgLen + (PackHeader.decode data).mAttLen.toUInt32.toUInt64
      + (PackHeader.decode data).mFileLen)]
  · simpa only [Reception.rest, hh, PackHeader.bodyLen] using sum_lengths_iff _ _ _
  · simp only [recvCallback, ends_bind, ends_getNextRecv, hn, recvHeaderCb, ends_ASSERT,
      IoVec.fill_size, IoVec.fill_base, hsize, beq_self_eq_true, if_true, ends_modifyCb, hrpc,
      Bool.false_eq_true, if_false, ends_getCb, ends_pure, List.append_nil]
    exact prepare2Drain_calls rfl _

theorem accounts_message {r : Reception} {hdr : PackHeader} {v : IoVec} {data : List UInt8}
    {pre : List Call} (hh : r.hdr = some hdr) (hsize : v.size = hdr.mMsgLen.toNat)
    (htaken : r.taken = 0) (hd : data.length = v.size)
    (hcb : r.world.mRecvCb = { attLen := hdr.mAttLen.toUInt32, fileLen := hdr.mFileLen })
    (hpre : ∀ c ∈ pre, ∀ m, c ≠ .prepare2Drain m) {x : RecvM ConnStatus}
    (hx : Ends x { r.world with mRecvQ := [] }
      (fun _ t => t.calls = r.world.calls ++ pre ++ [.prepare2Drain r.world.mRecvCb.leftSize]
        ∧ t.mCleaning = r.world.mCleaning)
      fun _ t => t.calls = r.world.calls ++ pre ++ [.prepare2Drain r.world.mRecvCb.leftSize]
        ∧ t.mCleaning = r.world.mCleaning) :
    Ends x { r.world with mRecvQ := [] } (fun _ => AccountsIn r data)
        (fun _ => AccountsIn r data) ↔
      ∀ h, r.hdr = some h →
        h.mAttLen.toNat < 2 ^ 32 ∧ h.mAttLen.toNat + h.mFileLen.toNat < 2 ^ 64 := by
  have hrest : r.rest data = hdr.mAttLen.toNat + hdr.mFileLen.toNat := by
    simp only [Reception.rest, hh, htaken, hd, hsize, PackHeader.bodyLen]
    omega
  rw [ends_accounts_iff (.inr (by rw [hcb])) hpre hx, hrest, hcb, CbParam.leftSize, leftSize_iff]
  simp [hh]

/-- At any point of the reception of a frame at which it is rejected, the path accounts for the rest
of the frame exactly where the lengths fit. -/
theorem accounts_iff (env : Env) (w : World) (hw : HeaderPosted w) (datas : List (List UInt8))
    (r : Reception) (hr : (receive env).run { world := w } datas = some r) (data : List UInt8)
    (hv : ∃ v q, r.world.mRecvQ = v :: q ∧ data.length = v.size) (why : Rejection)
    (hrej : Rejects env r data why) : Accounts env r data ↔ Fits env r data why := by
  have hf : Follows r := (receive env).run_inv_of_step (fun _ _ _ h hs => receive_follows h hs)
    datas (by exact hw) hr
  obtain ⟨v, q, hq, hd⟩ := hv
  have hacc : Accounts env r data ↔ Ends (recvCallback env (v.fill data) .DONE)
      { r.world with mRecvQ := q } (fun _ => AccountsIn r data) fun _ => AccountsIn r data := by
    simp [Accounts, hq]
  rw [hacc]
  have hmsg : r.world.mNextRecvPart = .MESSAGE → ∃ hdr, r.hdr = some hdr ∧ q = []
      ∧ v.size = hdr.mMsgLen.toNat ∧ r.taken = 0
      ∧ r.world.mRecvCb = { attLen := hdr.mAttLen.toUInt32, fileLen := hdr.mFileLen } := by
    intro hn
    cases hh : r.hdr with
    | none =>
      simp only [Follows, hh] at hf
      exact absurd (hf.1.symm.trans hn) (by decide)
    | some hdr =>
      simp only [Follows, hh] at hf
      obtain ⟨⟨u, hu, hsize⟩, htaken, hcb⟩ := hf hn
      rw [hq, List.cons.injEq] at hu
      obtain ⟨rfl, rfl⟩ := hu
      exact ⟨hdr, rfl, rfl, hsize, htaken, hcb⟩
  cases why with
  | headerType =>
    obtain ⟨hh, hrpc⟩ := hrej
    simp only [Follows, hh] at hf
    obtain ⟨hn, u, hu, hsize⟩ := hf
    rw [hq, List.cons.injEq] at hu
    obtain ⟨rfl, rfl⟩ := hu
    exact accounts_header hh hn hsize hrpc
  | undecodable =>
    obtain ⟨hn, hdes⟩ := hrej
    obtain ⟨hdr, hh, rfl, hsize, htaken, hcb⟩ := hmsg hn
    have hcallback : recvMessageCb env (v.fill data) = (do
        sendBadMsgErr env data CommEvent.MALFORMED_MESSAGE "Failed to deserialize message"
        let cbp ← getCb
        prepare2Drain env (v.fill data) cbp.leftSize
        pure .CONN_ERR_MISMATCH) := by
      simp only [recvMessageCb, IoVec.fill_base, IoVec.fill_size, ← hd, hdes]
    by_cases hm : env.mem r.world.news
    · have hpre : ∀ c ∈ [Call.sendResponse (UInt64.ofNat (leNat ((data.drop 8).take 8))).toUInt32
          CommEvent.MALFORMED_MESSAGE "Failed to deserialize message"],
          ∀ m, c ≠ .prepare2Drain m := by simp
      simp only [Fits]
      rw [and_iff_right hm]
      refine accounts_message hh hsize htaken hd hcb hpre ?_
      simp only [recvCallback, ends_bind, ends_getNextRecv, hn, hcallback, sendBadMsgErr,
        ends_newChar, hm, if_true, ends_call, ends_getCb, ends_pure]
      exact prepare2Drain_calls (by simp [hcb]) _
    · refine iff_of_false (not_ends_accounts ?_) fun h => hm h.1
      simp only [recvCallback, ends_bind, ends_getNextRecv, hn, hcallback, sendBadMsgErr,
        ends_newChar, hm, Bool.false_eq_true, if_false, and_self]
  | neitherKind =>
    obtain ⟨hn, mId, hdes⟩ := hrej
    obtain ⟨hdr, hh, rfl, hsize, htaken, hcb⟩ := hmsg hn
    refine accounts_message hh hsize htaken hd hcb (List.forall_mem_nil _) ?_
    simp only [recvCallback, ends_bind, ends_getNextRecv, hn, recvMessageCb, IoVec.fill_base,
      IoVec.fill_size, ← hd, hdes, ends_getCb, ends_pure, List.append_nil]
    exact prepare2Drain_calls (by simp [hcb]) _
  | unknownId =>
    obtain ⟨hn, mId, mStatus, hdes, hl⟩ := hrej
    obtain ⟨hdr, hh, rfl, hsize, htaken, hcb⟩ := hmsg hn
    refine accounts_message hh hsize htaken hd hcb (List.forall_mem_nil _) ?_
    simp only [recvCallback, ends_bind, ends_getNextRecv, hn, recvMessageCb, IoVec.fill_base,
      IoVec.fill_size, ← hd, hdes, recvRspMsg, ends_getAndRmEvent, hl, ends_getCb, ends_ite,
      ends_pure, List.append_nil]
    exact prepare2Drain_calls (by simp [hcb]) _
  | notWritten =>
    obtain ⟨hn, hdisk⟩ := hrej
    simp only [Fits, iff_false]
    refine not_ends_accounts ?_
    simp only [recvCallback, ends_bind, ends_getNextRecv, hn]
    exact recvFile_not_written hd hdisk

section Samples

/-- A header of no known type. -/
def unsupportedHeader (attLen : UInt64) : PackHeader where
  mType _ := 0
  mMsgLen := 1
  mAttLen := attLen
  mFileLen := 3

theorem accounts_unsupported :
    Accounts sampleEnv { world := sampleWorld } (unsupportedHeader 2).encode := by
  refine (accounts_iff sampleEnv sampleWorld ⟨rfl, _, rfl, rfl⟩ [] _ rfl _
    ⟨_, _, rfl, PackHeader.length_encode _⟩ .headerType ⟨rfl, ?_⟩).2 ?_
  · rw [PackHeader.decode_encode]
    decide
  · simp only [Fits, PackHeader.decode_encode]
    decide

/-- An attachment length of `2 ^ 32` counts as none. -/
theorem not_accounts_long_attachment :
    (receive sampleEnv).run { world := sampleWorld } [] = some { world := sampleWorld }
      ∧ Rejects sampleEnv { world := sampleWorld } (unsupportedHeader (2 ^ 32)).encode .headerType
      ∧ ¬ Accounts sampleEnv { world := sampleWorld } (unsupportedHeader (2 ^ 32)).encode := by
  have hrpc : (PackHeader.decode (unsupportedHeader (2 ^ 32)).encode).isRpc = false := by
    rw [PackHeader.decode_encode]
    decide
  refine ⟨rfl, ⟨rfl, hrpc⟩, fun h => ?_⟩
  have hacc := h prepareRecvHeader [] rfl
  rw [accounts_header rfl rfl rfl hrpc, PackHeader.decode_encode] at hacc
  exact absurd hacc.1 (by decide)

end Samples

end Longda
