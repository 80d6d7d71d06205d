import Longda.Net.Reject
import Mathlib.Data.Prod.Lex

/-!
# What a callback needs

On a connection that waits for no response a callback returns exactly when the buffers it asks for
are granted and a header the connection supports came in a vector of the connection's own
(`recvCallback_supplied`). Either way it leaves the locks and the references as they were. A
callback entered without bytes takes the connection nearer to its next header
(`recvCallback_nearer`).
-/

namespace Longda

open Lib

variable (env : Env)

/-- Whether `writeToFile` succeeds. -/
def WriteResult.ok (data : List UInt8) : WriteResult → Bool
  | .written => true
  | .notOpened => false
  | .short _ => data.isEmpty

/-- How many buffers the callback of the front vector asks for. -/
def asks (w : World) (data : List UInt8) : ℕ :=
  match w.mNextRecvPart with
  | .HEADER => 1
  | .MESSAGE =>
    match env.deserialize data (UInt64.ofNat data.length).toUInt32.toInt32 with
    | none => 2
    | some (.request _) =>
      if w.mRecvCb.attLen > 0 then (env.attachMems w.mRecvCb.attLen.toUInt64).length else 1
    | some (.response _ _) => 1
    | some (.other _) => 1
  | .ATTACHMENT => if w.mRecvCb.remainVecs - 1 = 0 then 1 else 0
  | .ATTACHFILE => if (env.disk w.writes).ok data ∧ w.mRecvCb.remainVecs - 1 = 0 then 1 else 0
  | .DRAIN => if w.mRecvCb.remainVecs - 1 = 0 then 1 else 0

/-- The buffers the callback asks for are granted, and a header the connection supports is in a
vector of the connection's own. -/
def Supplied (w : World) (data : List UInt8) : Prop :=
  env.Grants w.news (asks env w data) ∧
    (w.mNextRecvPart = .HEADER → (PackHeader.decode data).isRpc →
      ∀ v ∈ w.mRecvQ.head?, v.alloc = .SYS_ALLOC)

/-- The computation asks for `n` buffers, and a refused one is all that stops it. -/
def Takes {α : Type} (n : ℕ) (x : RecvM α) (w : World) : Prop :=
  Ends x w (fun _ t => env.Grants w.news n ∧ Stays w t)
    fun f t => f = .badAlloc ∧ ¬ env.Grants w.news n ∧ Stays w t

variable {env} {w : World} {iov : IoVec} {α β : Type} {n : ℕ}

theorem takes_prepare2Drain (n : UInt64) : Takes env 1 (prepare2Drain env iov n) w := by
  simp only [Takes, prepare2Drain, ends_bind, ends_call, ends_ite, ends_modifyCb,
    repostReusedIoVec, ends_newChar, ends_postRecv, ends_setNextRecv, repostIoVec, grants_one]
  split_ifs with h0 h1
  · exact ⟨h1, rfl, rfl, rfl, id, fun _ => id, posted_append rfl⟩
  · exact ⟨trivial, h1, rfl, rfl, rfl, id, fun _ => id, fun _ => .inl⟩
  · refine recvErrCb_keeps.mono ?_ fun _ _ => False.elim
    intro _ t ht
    have hs : Stays w t := ht.toStays.after ⟨rfl, rfl, rfl, id, fun _ => id, fun _ => .inl⟩
    have hn : t.news = w.news := ht.news
    rw [hn]
    split_ifs with h2
    · exact ⟨h2, hs.trans ⟨rfl, rfl, rfl, id, fun _ => id, posted_append rfl⟩⟩
    · exact ⟨trivial, h2, hs.trans ⟨rfl, rfl, rfl, id, fun _ => id, fun _ => .inl⟩⟩

theorem takes_checkEventReady (ho : Owned w) : Takes env 1 (checkEventReady env true iov) w := by
  simp only [Takes, checkEventReady, if_true, ends_bind, ends_getCb, ends_setNextRecv,
    ends_modifyCb, repostIoVec, ends_newChar, ends_postRecv, grants_one]
  refine (eventDone_keeps ho).mono ?_ fun _ _ => False.elim
  intro _ t ht
  have hs : Stays w t := ht.toStays
  rw [ht.news]
  split_ifs with h
  · exact ⟨h, hs.trans ⟨rfl, rfl, rfl, id, fun _ => id, posted_append rfl⟩⟩
  · exact ⟨trivial, h, hs.trans ⟨rfl, rfl, rfl, id, fun _ => id, fun _ => .inl⟩⟩

/-- A frame goes on where the states on the way have asked for nothing. -/
theorem Takes.of_stays {x : RecvM α} {u : World} (h : Takes env n x u) (hs : Stays w u)
    (hn : u.news = w.news) :
    Ends x u (fun _ t => env.Grants w.news n ∧ Stays w t)
      fun f t => f = .badAlloc ∧ ¬ env.Grants w.news n ∧ Stays w t := by
  unfold Takes at h
  rw [hn] at h
  exact h.mono (fun _ t ht => ⟨ht.1, hs.trans ht.2⟩) fun f t ht => ⟨ht.1, ht.2.1, hs.trans ht.2.2⟩

theorem takes_recvPrepareFileIov : Takes env 1 (recvPrepareFileIov env) w := by
  simp only [Takes, ends_recvPrepareFileIov, grants_one]
  split_ifs with h
  · exact ⟨h, rfl, rfl, rfl, id, fun _ => id, posted_append rfl⟩
  · exact ⟨trivial, h, rfl, rfl, rfl, id, fun _ => id, fun _ => .inl⟩

theorem posted_pushed (baseLen : UInt64) {q : List IoVec} (n : ℕ) :
    ∀ u ∈ q ++ ((env.attachMems baseLen).take n).map (IoVec.ofVec · .USER_ALLOC),
      u ∈ q ∨ u.fill [] = u := by
  intro u hu
  rcases List.mem_append.1 hu with h | h
  · exact .inl h
  · obtain ⟨v, hv, rfl⟩ := List.mem_map.1 h
    have hbase : v.base = [] := by
      rcases List.mem_append.1 (List.mem_of_mem_take hv) with h | h
      · rw [List.eq_of_mem_replicate h]
      · rw [List.mem_singleton.1 h]
    exact .inr (by simp [IoVec.fill, IoVec.ofVec, hbase])

theorem takes_recvReqMsg (hc : w.mRecvCb.cev = none) (mId : UInt64) :
    Ends (recvReqMsg env mId iov) w
      (fun rc t => rc = .SUCCESS ∧ env.Grants w.news (if w.mRecvCb.attLen > 0
        then (env.attachMems w.mRecvCb.attLen.toUInt64).length else 1) ∧ Stays w t)
      fun f t => f = .badAlloc ∧ ¬ env.Grants w.news (if w.mRecvCb.attLen > 0
        then (env.attachMems w.mRecvCb.attLen.toUInt64).length else 1) ∧ Stays w t := by
  simp only [recvReqMsg, ends_bind, ends_getCb, ends_ite, ends_pure, ends_ASSERT,
    ends_newServerEvent, ends_modifyCb, ends_setNextRecv, pushAttachMessage, ends_postRecvs,
    true_and, hc, beq_self_eq_true, if_true]
  split_ifs with h0 h1
  · refine (allocAttachIoVecs_ends env _ w).mono ?_ ?_
    · rintro mems t ⟨rfl, rfl, hg⟩
      simp only [hc, beq_self_eq_true, if_true, ends_checkEventReady_false]
      exact ⟨hg, rfl, rfl, rfl, id, serverGen_update fun _ => rfl, posted_pushed _ _⟩
    · rintro f t ⟨hf, hg, k, rfl⟩
      exact ⟨hf, hg, rfl, rfl, rfl, id, fun _ => id, fun _ => .inl⟩
  · simp only [ends_recvPrepareFileIov, hc, beq_self_eq_true, if_true,
      ends_checkEventReady_false, grants_one]
    split_ifs with h2
    · exact ⟨h2, rfl, rfl, rfl, id, serverGen_update fun _ => rfl, posted_append rfl⟩
    · exact ⟨trivial, h2, rfl, rfl, rfl, id, fun _ => id, fun _ => .inl⟩
  · refine (takes_checkEventReady ?_).of_stays ?_ ?_
    · exact ⟨w.nextEvent, rfl, fun h => by simp at h⟩
    · exact ⟨rfl, rfl, rfl, id, serverGen_update fun _ => rfl, fun _ => .inl⟩
    · rfl

theorem takes_recvMessageCb {data : List UInt8} (hn : w.mNextRecvPart = .MESSAGE)
    (hd : data.length = iov.size) (hc : w.mRecvCb.cev = none) (hm : w.mSendEventMap = []) :
    Takes env (asks env w data) (recvMessageCb env (iov.fill data)) w := by
  simp only [recvMessageCb, asks, hn, IoVec.fill_base, IoVec.fill_size, hd]
  rcases env.deserialize data _ with _ | mId | ⟨mId, mStatus⟩ | mId
  · have hsplit := grants_add env (k := w.news) (m := 1) (n := 1)
    rw [grants_one] at hsplit
    simp only [Takes, sendBadMsgErr, ends_bind, ends_newChar, ends_call, ends_getCb, ends_pure,
      hsplit]
    split_ifs with h
    · refine (takes_prepare2Drain _).mono ?_ ?_
      · exact fun _ t ht => ⟨⟨h, ht.1⟩, ht.2.after ⟨rfl, rfl, rfl, id, fun _ => id, fun _ => .inl⟩⟩
      · exact fun f t ht => ⟨ht.1, fun hg => ht.2.1 hg.2,
          ht.2.2.after ⟨rfl, rfl, rfl, id, fun _ => id, fun _ => .inl⟩⟩
    · exact ⟨trivial, fun hg => h hg.1, rfl, rfl, rfl, id, fun _ => id, fun _ => .inl⟩
  · simp only [Takes, ends_bind, ends_getCb, ends_ite, ends_pure]
    refine (takes_recvReqMsg hc mId).mono_ok ?_
    rintro _ t ⟨rfl, ht⟩
    exact ht
  · simp only [Takes, recvRspMsg, ends_bind, ends_getAndRmEvent, ends_getCb, ends_ite, ends_pure,
      hm, List.lookup_nil]
    refine (takes_prepare2Drain _).of_stays
      ⟨rfl, rfl, rfl, fun _ => rfl, fun _ => id, fun _ => .inl⟩ rfl
  · simp only [Takes, ends_bind, ends_getCb, ends_pure]
    exact takes_prepare2Drain _

theorem takes_recvDrain (hn : w.mNextRecvPart = .DRAIN) (data : List UInt8) :
    Takes env (asks env w data) (recvDrain env iov) w := by
  simp only [Takes, asks, hn, recvDrain, ends_bind, ends_modifyCb, ends_getCb, ends_ite,
    ends_setNextRecv, repostIoVec, ends_newChar, ends_postRecv, ends_pure]
  split_ifs with h0 h1
  · refine recvErrCb_keeps.mono ?_ fun _ _ => False.elim
    intro _ t ht
    have hs : Stays w t := ht.toStays.after ⟨rfl, rfl, rfl, id, fun _ => id, fun _ => .inl⟩
    have hn : t.news = w.news := ht.news
    rw [hn, grants_one]
    split_ifs with h2
    · exact ⟨h2, hs.trans ⟨rfl, rfl, rfl, id, fun _ => id, posted_append rfl⟩⟩
    · exact ⟨trivial, h2, hs.trans ⟨rfl, rfl, rfl, id, fun _ => id, fun _ => .inl⟩⟩
  · exact ⟨grants_zero env _, rfl, rfl, rfl, id, fun _ => id, posted_append rfl⟩
  · exact ⟨grants_zero env _, rfl, rfl, rfl, id, fun _ => id, posted_append rfl⟩

theorem takes_recvAttachCb (hn : w.mNextRecvPart = .ATTACHMENT) (ho : Owned w)
    (data : List UInt8) : Takes env (asks env w data) (recvAttachCb env iov) w := by
  simp only [Takes, asks, hn, recvAttachCb, ends_bind, ends_modifyCb, ends_getCb, ends_ite,
    ends_pure, recvAttach]
  split_ifs with h0 h1
  · exact (takes_checkEventReady (by exact ho)).of_stays
      ⟨rfl, rfl, rfl, id, fun _ => id, fun _ => .inl⟩ rfl
  · simp only [ends_checkEventReady_false]
    exact takes_recvPrepareFileIov.of_stays ⟨rfl, rfl, rfl, id, fun _ => id, fun _ => .inl⟩ rfl
  · exact ⟨grants_zero env _, rfl, rfl, rfl, id, fun _ => id, fun _ => .inl⟩

theorem writeToFile_ok (fileName : Path) (data : List UInt8) (append : Bool) :
    Ends (writeToFile env fileName data append) w (fun ok _ => ok = (env.disk w.writes).ok data)
      fun _ _ => False := by
  simp only [writeToFile, ends_bind, ends_get]
  cases env.disk w.writes <;> rfl

theorem recvFileName_writes (cbp : CbParam) (first : Bool) :
    Ends (recvFileName env cbp first) w (fun _ t => t.writes = w.writes) fun _ _ => True := by
  unfold recvFileName
  cases first with
  | false => rfl
  | true =>
    cases cbp.cev with
    | none => trivial
    | some cev => rfl

theorem takes_recvFile {data : List UInt8} (hn : w.mNextRecvPart = .ATTACHFILE)
    (hd : data.length = iov.size) (ho : Owned w) :
    Takes env (asks env w data) (recvFile env (iov.fill data)) w := by
  have htake : data.take iov.size = data := by rw [← hd, List.take_length]
  simp only [Takes, asks, hn, recvFile, ends_bind, ends_getCb, IoVec.fill_base, IoVec.fill_size,
    htake]
  refine ((recvFileName_keeps _ ho).and (recvFileName_writes w.mRecvCb _)).mono ?_
    fun _ _ h => h.1.elim
  rintro fileName u ⟨⟨hu, huo⟩, hw⟩
  rw [← hw]
  refine ((writeToFile_keeps fileName data _ huo).and (writeToFile_ok fileName data _)).mono ?_
    fun _ _ h => h.1.elim
  rintro ok t ⟨⟨ht, hto⟩, rfl⟩
  have hs : Stays w t := hu.toStays.trans ht.toStays
  have hnews : t.news = w.news := ht.news.trans hu.news
  cases (env.disk u.writes).ok data with
  | false =>
    simp only [Bool.false_eq_true, false_and, if_false, ends_pure]
    exact ⟨grants_zero env _, hs⟩
  | true =>
    simp only [if_true, true_and, ends_bind, ends_modifyCb, ends_ite, ends_pure]
    by_cases h0 : w.mRecvCb.remainVecs - 1 = 0
    · simp only [h0, if_true]
      exact (takes_checkEventReady (by exact hto)).of_stays
        (hs.trans ⟨rfl, rfl, rfl, id, fun _ => id, fun _ => .inl⟩) hnews
    · simp only [h0, if_false]
      exact ⟨grants_zero env _, hs.trans ⟨rfl, rfl, rfl, id, fun _ => id, fun _ => .inl⟩⟩

/-- Behind the header buffers are all a callback needs. -/
theorem takes_recvCallback {v : IoVec} {q : List IoVec} {data : List UInt8}
    (hw : Consistent env (fun _ => True) w) (hn : w.mNextRecvPart ≠ .HEADER)
    (hd : data.length = v.size) (hm : w.mSendEventMap = []) :
    Takes env (asks env w data) (recvCallback env (v.fill data) .DONE) { w with mRecvQ := q } := by
  rw [show asks env w data = asks env { w with mRecvQ := q } data from rfl]
  simp only [Takes, recvCallback, ends_bind, ends_getNextRecv]
  unfold Consistent at hw
  cases hp : w.mNextRecvPart with
  | HEADER => exact absurd hp hn
  | MESSAGE =>
    simp only [hp] at hw
    exact takes_recvMessageCb rfl hd hw.2 hm
  | ATTACHMENT =>
    simp only [hp] at hw
    exact takes_recvAttachCb rfl (by exact hw.2) data
  | ATTACHFILE =>
    simp only [hp] at hw
    exact takes_recvFile rfl hd hw.2
  | DRAIN => exact takes_recvDrain rfl data

theorem recvHeaderCb_supplied {data : List UInt8} (hs : iov.size = HDR_LEN) :
    Ends (recvHeaderCb env (iov.fill data)) w
      (fun _ t => (env.Grants w.news 1 ∧ ((PackHeader.decode data).isRpc → iov.alloc = .SYS_ALLOC))
        ∧ Stays w t)
      fun f t => (f = .badAlloc ∨ ∃ d, f = .assertFailed d) ∧ ¬ (env.Grants w.news 1
        ∧ ((PackHeader.decode data).isRpc → iov.alloc = .SYS_ALLOC)) ∧ Stays w t := by
  simp only [recvHeaderCb, ends_bind, ends_ASSERT, IoVec.fill_size, IoVec.fill_base,
    IoVec.fill_alloc, hs, beq_self_eq_true, if_true, ends_modifyCb]
  by_cases h0 : (PackHeader.decode data).isRpc
  · simp only [h0, if_true, ends_bind, ends_ASSERT, beq_iff_eq, ends_setNextRecv, repostIoVec,
      ends_newChar, ends_postRecv, ends_pure, grants_one, true_imp_iff]
    split_ifs with h1 h2
    · exact ⟨⟨h2, h1⟩, rfl, rfl, rfl, id, fun _ => id, posted_append rfl⟩
    · exact ⟨.inl trivial, fun h => h2 h.1, rfl, rfl, rfl, id, fun _ => id, fun _ => .inl⟩
    · exact ⟨.inr ⟨_, rfl⟩, fun h => h1 h.2, rfl, rfl, rfl, id, fun _ => id, fun _ => .inl⟩
  · simp only [h0, Bool.false_eq_true, if_false, ends_bind, ends_getCb, ends_pure, false_imp_iff,
      and_true]
    refine (takes_prepare2Drain _).mono ?_ ?_
    · exact fun _ t h => ⟨h.1, h.2.after ⟨rfl, rfl, rfl, id, fun _ => id, fun _ => .inl⟩⟩
    · exact fun f t h =>
        ⟨.inl h.1, h.2.1, h.2.2.after ⟨rfl, rfl, rfl, id, fun _ => id, fun _ => .inl⟩⟩

/-- The callback of the front vector returns exactly when it is supplied. -/
theorem recvCallback_supplied {v : IoVec} {q : List IoVec} {data : List UInt8}
    (hw : Consistent env (fun _ => True) w) (hq : w.mRecvQ = v :: q) (hd : data.length = v.size)
    (hm : w.mSendEventMap = []) :
    Ends (recvCallback env (v.fill data) .DONE) { w with mRecvQ := q }
      (fun _ t => Supplied env w data ∧ Stays w t)
      fun f t =>
        (f = .badAlloc ∨ ∃ d, f = .assertFailed d) ∧ ¬ Supplied env w data ∧ Stays w t := by
  have hpop : Stays w { w with mRecvQ := q } :=
    ⟨rfl, rfl, rfl, id, fun _ => id, fun u hu => .inl (by rw [hq]; exact .tail v hu)⟩
  by_cases hn : w.mNextRecvPart = .HEADER
  · have hs : v.size = HDR_LEN := by
      simp only [Consistent, hn, hq, List.cons.injEq] at hw
      obtain ⟨v, ⟨rfl, -⟩, hs, -⟩ := hw
      exact hs
    have hsup : Supplied env w data ↔ env.Grants w.news 1
        ∧ ((PackHeader.decode data).isRpc → v.alloc = .SYS_ALLOC) := by
      simp [Supplied, asks, hn, hq]
    rw [hsup]
    simp only [recvCallback, ends_bind, ends_getNextRecv]
    simp only [hn] at hpop ⊢
    refine (recvHeaderCb_supplied hs).mono ?_ ?_
    · exact fun _ t h => ⟨h.1, h.2.after hpop⟩
    · exact fun f t h => ⟨h.1, h.2.1, h.2.2.after hpop⟩
  · have hsup : Supplied env w data ↔ env.Grants w.news (asks env w data) :=
      ⟨fun h => h.1, fun h => ⟨h, fun hn' => absurd hn' hn⟩⟩
    rw [hsup]
    refine (takes_recvCallback hw hn hd hm).mono ?_ ?_
    · exact fun _ t h => ⟨h.1, h.2.after hpop⟩
    · exact fun f t h => ⟨.inl h.1, h.2.1, h.2.2.after hpop⟩

/-! ## Callbacks without bytes -/

/-- How far a part of the frame is from the next header. -/
def NextRecv.rank : NextRecv → ℕ
  | .HEADER => 0
  | .MESSAGE => 3
  | .ATTACHMENT => 2
  | .ATTACHFILE => 1
  | .DRAIN => 1

/-- How far a connection is from its next header, were it to receive nothing. -/
def World.toHeader (w : World) : ℕ ×ₗ ℕ := toLex (w.mNextRecvPart.rank, w.mRecvQ.length)

theorem nearer_of_rank {t : World} (h : t.mNextRecvPart.rank < w.mNextRecvPart.rank) :
    t.toHeader < w.toHeader := by
  simp only [World.toHeader, Prod.Lex.toLex_lt_toLex]
  exact .inl h

theorem nearer_of_length {t : World} (hn : t.mNextRecvPart = w.mNextRecvPart)
    (h : t.mRecvQ.length < w.mRecvQ.length) : t.toHeader < w.toHeader := by
  simp only [World.toHeader, Prod.Lex.toLex_lt_toLex]
  exact .inr ⟨by rw [hn], h⟩

/-- A vector of no bytes is not waited for twice. -/
theorem recvCallback_nearer {v : IoVec} {q : List IoVec} {data : List UInt8}
    (hw : Consistent env (fun _ => True) w) (hq : w.mRecvQ = v :: q) (hz : v.size = 0) :
    Ends (recvCallback env (v.fill data) .DONE) { w with mRecvQ := q }
      (fun _ t => t.toHeader < w.toHeader) fun _ _ => True := by
  have hcons := hw
  unfold Consistent at hw
  cases hp : w.mNextRecvPart with
  | HEADER =>
    simp only [hp, hq, List.cons.injEq] at hw
    obtain ⟨v, ⟨rfl, -⟩, hs, -⟩ := hw
    rw [hz] at hs
    exact absurd hs (by decide)
  | MESSAGE =>
    refine (recvCallback_next (by simp)).mono_ok fun _ t ht => nearer_of_rank ?_
    rw [hp]
    revert ht
    cases t.mNextRecvPart <;> decide
  | ATTACHMENT =>
    simp only [recvCallback, ends_bind, ends_getNextRecv, recvAttachCb, ends_modifyCb, ends_getCb,
      ends_ite, ends_pure, recvAttach, ends_recvPrepareFileIov,
      ends_checkEventReady_false]
    split_ifs
    · refine checkEventReady_header.mono_ok fun _ t ht => nearer_of_rank ?_
      simp [ht, hp, NextRecv.rank]
    · exact nearer_of_rank (by simp [hp, NextRecv.rank])
    · exact nearer_of_length hp.symm (by simp [hq])
  | ATTACHFILE =>
    have hb := (hcons.file hp (by simp [hq])).1
    obtain ⟨hf, -, u, hu, -, hsize⟩ := hb
    rw [hq, List.cons.injEq] at hu
    have hpos : 0 < w.mRecvCb.fileLen.toNat := by
      rw [Nat.pos_iff_ne_zero]
      exact fun h => hf (UInt64.toNat_inj.1 h)
    have : 0 < env.blockSize w.mRecvCb.fileLen := blockSize_pos hpos
    rw [← hsize, ← hu.1, hz] at this
    omega
  | DRAIN =>
    simp only [hp, hq, List.cons.injEq] at hw
    obtain ⟨v, ⟨rfl, rfl⟩, -, hone⟩ := hw
    simp only [recvCallback, ends_bind, ends_getNextRecv, recvDrain, ends_modifyCb, ends_getCb,
      ends_ite, ends_setNextRecv, repostIoVec, ends_newChar, ends_postRecv, ends_pure, hone hz]
    refine recvErrCb_keeps.mono ?_ fun _ _ => False.elim
    intro _ t _
    split_ifs
    exact nearer_of_rank (by simp [hp, NextRecv.rank])

end Longda
