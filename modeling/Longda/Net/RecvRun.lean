import Longda.Lib.Machine
import Longda.Net.ConnCb

/-!
# The turn of the header

`deliver` is the machine of the receive callbacks: a step fills the front vector and enters
`recvCallback` with it. `Consistent` says what is on the receive queue in each state of the
connection and whose event is being received, and every step keeps it but one
(`deliver_consistent`): after the last memory attachment of a frame without a file,
`checkEventReady` reposts the vector of that attachment, which the connection does not own, to be
the next header.
-/

namespace Longda

open Lib

section Machine

variable (env : Env)

/-- The state a callback leaves, if it returns. -/
def okState (w : World) (x : RecvM ConnStatus) : Option World :=
  match x w with
  | .ok _ w' => some w'
  | .error _ _ => none

/-- The callbacks of one connection, each entered with a vector that has received all its bytes. -/
def deliver : Machine World (List UInt8) where
  step w data :=
    match w.mRecvQ with
    | [] => none
    | v :: q =>
      if data.length = v.size then
        okState { w with mRecvQ := q } (recvCallback env (v.fill data) .DONE)
      else none

theorem okState_eq_some {w w' : World} {x : RecvM ConnStatus} :
    okState w x = some w' ↔ ∃ rc, x w = .ok rc w' := by
  unfold okState
  cases x w <;> simp

theorem deliver_eq_some {w w' : World} {data : List UInt8} :
    (deliver env).step w data = some w' ↔ ∃ v q rc, w.mRecvQ = v :: q ∧ data.length = v.size
      ∧ recvCallback env (v.fill data) .DONE { w with mRecvQ := q } = .ok rc w' := by
  simp only [deliver]
  rcases hq : w.mRecvQ with _ | ⟨v, q⟩
  · simp
  · simp only
    split_ifs with hd
    · simp [okState_eq_some, hd]
    · simp [hd]

theorem deliver_exists_iff {w : World} {v : IoVec} {q : List IoVec} {data : List UInt8}
    (hq : w.mRecvQ = v :: q) (hd : data.length = v.size) {P : World → Prop} :
    (∃ t, (deliver env).step w data = some t ∧ P t) ↔
      Ends (recvCallback env (v.fill data) .DONE) { w with mRecvQ := q } (fun _ => P)
        fun _ _ => False := by
  simp only [deliver, hq, hd, if_true, okState, Ends]
  cases recvCallback env (v.fill data) .DONE { w with mRecvQ := q } <;> simp

end Machine

/-! ## What the states of a connection post -/

/-- The event can be handed over: the server hands it to the next stage, and on the client the
response is there and the status no longer `PENDING`. -/
def Ripe (e : CommEvent) : Prop :=
  e.serverGen = false → e.status ≠ CommEvent.PENDING
    ∧ ∃ mId mStatus, e.response.message = some (.response mId mStatus)

/-- The event of the frame being received. -/
def Owned (w : World) : Prop := ∃ cev, w.mRecvCb.cev = some cev ∧ Ripe (w.events cev)

/-- The vector and the count that `recvPrepareFileIov` leaves. -/
def FileBegins (env : Env) (w : World) : Prop :=
  w.mRecvCb.fileLen ≠ 0 ∧ w.mRecvCb.remainVecs = env.blockCount w.mRecvCb.fileLen
    ∧ ∃ v, w.mRecvQ = [v] ∧ v.alloc = .SYS_ALLOC ∧ v.size = env.blockSize w.mRecvCb.fileLen

/-- What is on the receive queue in each state, and whose event is being received. The vectors that
are handed on from state to state are allocated as `A` allows. -/
def Consistent (env : Env) (A : AllocT → Prop) (w : World) : Prop :=
  match w.mNextRecvPart with
  | .HEADER => ∃ v, w.mRecvQ = [v] ∧ v.size = HDR_LEN ∧ A v.alloc
  | .MESSAGE => (∃ v, w.mRecvQ = [v] ∧ A v.alloc) ∧ w.mRecvCb.cev = none
  | .ATTACHMENT => (w.mRecvQ = [] ∨ w.mRecvQ.length = w.mRecvCb.remainVecs.toNat) ∧ Owned w
  | .ATTACHFILE => (w.mRecvQ = [] ∨ FileBegins env w) ∧ Owned w
  | .DRAIN => ∃ v, w.mRecvQ = [v] ∧ A v.alloc ∧ (v.size = 0 → w.mRecvCb.remainVecs = 1)

/-- The connection owns every vector it posts. -/
abbrev IsSys (a : AllocT) : Prop := a = .SYS_ALLOC

/-- What may end a callback: a refused buffer, or a client whose own buffers run out. -/
def Excused (env : Env) (w : World) (f : Fault) : Prop :=
  (f = .badAlloc ∧ ∃ k, env.mem k = false) ∨ (f = .undefined ∧ w.mSendEventMap ≠ [])

/-- The last memory attachment of a frame has a file behind it. -/
def FileFollows (w : World) (_data : List UInt8) : Prop :=
  w.mNextRecvPart = .ATTACHMENT → w.mRecvCb.remainVecs = 1 → w.mRecvCb.fileLen ≠ 0

instance (w : World) (data : List UInt8) : Decidable (FileFollows w data) :=
  inferInstanceAs (Decidable (_ → _ → _))

theorem Ripe.takeResponse (e : CommEvent) (mId : UInt64) (mStatus : Int32) :
    Ripe (e.takeResponse mId mStatus) := by
  intro _
  exact ⟨e.takeResponse_status mId mStatus, mId, mStatus, rfl⟩

theorem Ripe.setAttachFilePath {e : CommEvent} (h : Ripe e) (fileName : Path) :
    Ripe (e.setAttachFilePath fileName) := by
  unfold CommEvent.setAttachFilePath
  split_ifs with hs
  · exact fun hs' => absurd (hs'.symm.trans hs) (by decide)
  · exact h

variable {env : Env} {A : AllocT → Prop} {w : World} {iov : IoVec}

theorem excused_newChar (h : env.mem w.news ≠ true) (u : World) : Excused env u .badAlloc :=
  .inl ⟨rfl, w.news, by simpa using h⟩

theorem excused_refused {f : Fault} {n : ℕ} {t : World} (h : Refused env n w f t) (u : World) :
    Excused env u f :=
  .inl ⟨h.1, h.mem⟩

/-- What every callback leaves alone: the locks, the references, and which events are the server's;
a connection that waits for no response goes on so, and the vectors posted are empty. -/
structure Stays (w w' : World) : Prop where
  held : w'.held = w.held
  refCount : w'.mRefCount = w.mRefCount
  cleaning : w'.mCleaning = w.mCleaning
  eventMap : w.mSendEventMap = [] → w'.mSendEventMap = []
  serverGen : ∀ cev, (w.events cev).serverGen = true → (w'.events cev).serverGen = true
  posted : ∀ v ∈ w'.mRecvQ, v ∈ w.mRecvQ ∨ v.fill [] = v

theorem Stays.refl (w : World) : Stays w w := ⟨rfl, rfl, rfl, id, fun _ => id, fun _ => .inl⟩

theorem Stays.trans {a b c : World} (h : Stays a b) (k : Stays b c) : Stays a c where
  held := k.held.trans h.held
  refCount := k.refCount.trans h.refCount
  cleaning := k.cleaning.trans h.cleaning
  eventMap := k.eventMap ∘ h.eventMap
  serverGen cev := k.serverGen cev ∘ h.serverGen cev
  posted v hv := (k.posted v hv).elim (h.posted v) .inr

theorem Stays.after {a b c : World} (k : Stays b c) (h : Stays a b) : Stays a c := h.trans k

theorem serverGen_update {events : EventId → CommEvent} {cev : EventId} {e : CommEvent}
    (he : (events cev).serverGen = true → e.serverGen = true) (c : EventId)
    (hc : (events c).serverGen = true) : (Function.update events cev e c).serverGen = true := by
  by_cases h : c = cev
  · subst h
    rw [Function.update_self]
    exact he hc
  · rwa [Function.update_of_ne h]

theorem posted_append {q : List IoVec} {v : IoVec} (hv : v.fill [] = v) :
    ∀ u ∈ q ++ [v], u ∈ q ∨ u.fill [] = u := by
  intro u hu
  rcases List.mem_append.1 hu with h | h
  · exact .inl h
  · rw [List.mem_singleton.1 h]
    exact .inr hv

/-- What the end of a frame leaves alone. -/
structure Keeps (w w' : World) : Prop extends Stays w w' where
  nextRecv : w'.mNextRecvPart = w.mNextRecvPart
  recvQ : w'.mRecvQ = w.mRecvQ
  news : w'.news = w.news

theorem Keeps.trans {a b c : World} (h : Keeps a b) (k : Keeps b c) : Keeps a c where
  toStays := h.toStays.trans k.toStays
  nextRecv := k.nextRecv.trans h.nextRecv
  recvQ := k.recvQ.trans h.recvQ
  news := k.news.trans h.news

theorem recvErrCb_keeps : Ends recvErrCb w (fun _ => Keeps w) fun _ _ => False := by
  simp only [recvErrCb, ends_bind, ends_getCb, ends_modifyCb]
  cases w.mRecvCb.cev with
  | none => exact ⟨⟨rfl, rfl, rfl, id, fun _ => id, fun _ => .inl⟩, rfl, rfl, rfl⟩
  | some cev =>
    simp only [ends_bind, ends_getEvent, ends_ite, ends_pure, ends_modifyCb, ends_call,
      ends_removeEventEntry, ends_completeEvent]
    split_ifs
    · exact ⟨⟨rfl, rfl, rfl, id, fun _ => id, fun _ => .inl⟩, rfl, rfl, rfl⟩
    · exact ⟨⟨rfl, rfl, rfl, id, fun _ => id, fun _ => .inl⟩, rfl, rfl, rfl⟩
    · refine ⟨⟨rfl, rfl, rfl, fun h => ?_, serverGen_update fun h => h, fun _ => .inl⟩,
        rfl, rfl, rfl⟩
      simp [h]

theorem blockSize_pos {n : UInt64} (h : 0 < n.toNat) : 0 < env.blockSize n := by
  have := env.gMaxBlockSize_pos
  unfold Env.blockSize
  split_ifs <;> omega

theorem consistent_prepare2Drain (hq : w.mRecvQ = []) (ha : A iov.alloc) (n : UInt64)
    (u : World) :
    Ends (prepare2Drain env iov n) w (fun _ => Consistent env A)
      fun f _ => Excused env u f := by
  simp only [prepare2Drain, ends_bind, ends_call, ends_ite, ends_modifyCb, repostReusedIoVec,
    ends_newChar, ends_postRecv, ends_setNextRecv, repostIoVec]
  split_ifs with h0 h1
  · refine ⟨iov.renew (env.blockSize n), by simp [hq], ha, fun h => ?_⟩
    exact absurd h (blockSize_pos (UInt64.lt_iff_toNat_lt.1 h0)).ne'
  · exact excused_newChar h1 u
  · refine recvErrCb_keeps.mono ?_ fun _ _ => False.elim
    intro _ t ht
    split_ifs with h2
    · exact ⟨iov.renew HDR_LEN, by simp [ht.recvQ, hq], rfl, ha⟩
    · exact excused_newChar h2 u

/-- A ripe event is handed over with the queue as it was. -/
theorem eventDone_keeps (h : Owned w) :
    Ends (eventDone w.mRecvCb.cev) w (fun _ => Keeps w) fun _ _ => False := by
  obtain ⟨cev, hcev, hripe⟩ := h
  simp only [hcev, eventDone, ends_bind, ends_modify, ends_getEvent, ends_ite, ends_call,
    ends_throw]
  split_ifs with hs hp
  · exact ⟨⟨rfl, rfl, rfl, id, fun _ => id, fun _ => .inl⟩, rfl, rfl, rfl⟩
  · exact (hripe (by simpa using hs)).1 hp
  · obtain ⟨-, mId, mStatus, hm⟩ := hripe (by simpa using hs)
    simp only [hm]
    exact ⟨⟨rfl, rfl, rfl, id, serverGen_update fun h => h, fun _ => .inl⟩, rfl, rfl, rfl⟩

theorem consistent_checkEventReady (hq : w.mRecvQ = []) (ha : A iov.alloc)
    (ho : Owned w) (u : World) :
    Ends (checkEventReady env true iov) w (fun _ => Consistent env A)
      fun f _ => Excused env u f := by
  simp only [checkEventReady, if_true, ends_bind, ends_getCb, ends_setNextRecv, ends_modifyCb,
    repostIoVec, ends_newChar, ends_postRecv]
  refine (eventDone_keeps ho).mono ?_ fun _ _ => False.elim
  intro _ t ht
  split_ifs with h
  · exact ⟨iov.renew HDR_LEN, by simp [ht.recvQ, hq], rfl, ha⟩
  · exact excused_newChar h u

/-- An `int` loop over a list turns as often as its length says, cut to 32 bits, or never. -/
theorem intCount_eq (n : ℕ) : intCount n = 0 ∨ intCount n = n % 2 ^ 32 := by
  rw [intCount_eq_ite]
  split_ifs
  · exact .inr rfl
  · exact .inl rfl

/-- As many vectors are pushed as `remainVecs` says, or none. -/
theorem length_pushed (mems : List VecT) :
    ((mems.take (intCount mems.length)).map (IoVec.ofVec · .USER_ALLOC)) = [] ∨
      ((mems.take (intCount mems.length)).map (IoVec.ofVec · .USER_ALLOC)).length
        = (UInt32.ofNat mems.length).toNat := by
  rcases intCount_eq mems.length with h | h
  · exact .inl (by simp [h])
  · refine .inr ?_
    have := Nat.mod_le mems.length (2 ^ 32)
    simp only [h, List.length_map, List.length_take, UInt32.toNat_ofNat']
    omega

theorem consistent_recvReqMsg (hq : w.mRecvQ = []) (ha : A iov.alloc)
    (hc : w.mRecvCb.cev = none) (mId : UInt64) (u : World) :
    Ends (recvReqMsg env mId iov) w (fun rc t => rc = .SUCCESS ∧ Consistent env A t)
      fun f _ => Excused env u f := by
  have hripe : ∀ e : CommEvent, e.serverGen = true → Ripe e := fun e h h' => by simp [h] at h'
  simp only [recvReqMsg, ends_bind, true_and, ends_getCb, ends_ite, ends_pure, ends_ASSERT, hc,
    beq_self_eq_true, if_true, ends_newServerEvent, ends_modifyCb, ends_setNextRecv,
    pushAttachMessage, ends_postRecvs]
  split_ifs with h0 h1
  · refine (allocAttachIoVecs_ends env _ w).mono ?_ fun _ _ h => excused_refused h u
    rintro mems t ⟨-, rfl, -⟩
    simp only [hc, beq_self_eq_true, if_true, ends_checkEventReady_false]
    refine ⟨?_, w.nextEvent, rfl, hripe _ (by simp)⟩
    simpa [hq] using length_pushed mems
  · simp only [ends_recvPrepareFileIov, hc, beq_self_eq_true, if_true, ends_checkEventReady_false]
    split_ifs with h2
    · exact ⟨.inr ⟨h1, rfl, _, by rw [hq, List.nil_append], rfl, rfl⟩, w.nextEvent, rfl,
        hripe _ (by simp)⟩
    · exact excused_newChar h2 u
  · refine consistent_checkEventReady ?_ ha ⟨w.nextEvent, rfl, hripe _ (by simp)⟩ u
    exact hq

theorem fitAttachMems_ends (attLen : UInt32) (mems : List VecT) (w : World) {u : World}
    (hu : u.mSendEventMap ≠ []) :
    Ends (fitAttachMems env attLen mems) w (fun _ t => ∃ n, t = { w with news := n })
      fun f _ => Excused env u f := by
  have halloc : ∀ n, Ends (allocAttachIoVecs env n) w (fun _ t => ∃ n, t = { w with news := n })
      fun f _ => Excused env u f := fun n =>
    (allocAttachIoVecs_ends env n w).mono (fun _ _ h => ⟨_, h.2.1⟩) fun _ _ h => excused_refused h u
  simp only [fitAttachMems, ends_ite, ends_pure, ends_bind]
  split_ifs
  · exact halloc _
  · exact ⟨w.news, rfl⟩
  · cases truncateMems attLen.toInt32 (intCount mems.length) mems with
    | none => exact .inr ⟨rfl, hu⟩
    | some fitted => exact ⟨w.news, rfl⟩
  · exact halloc _

theorem consistent_recvRspEvent (hq : w.mRecvQ = []) (ha : A iov.alloc)
    (hc : w.mRecvCb.cev = none) (cev : EventId) (mId : UInt64) (mStatus : Int32) {u : World}
    (hu : u.mSendEventMap ≠ []) :
    Ends (recvRspEvent env cev mId mStatus iov) w (fun rc t => rc = .SUCCESS ∧ Consistent env A t)
      fun f _ => Excused env u f := by
  have hripe : Ripe (Function.update w.events cev
      ((w.events cev).takeResponse mId mStatus) cev) := by
    rw [Function.update_self]
    exact Ripe.takeResponse _ _ _
  simp only [recvRspEvent, ends_bind, true_and, ends_getCb, ends_ite, ends_pure, ends_ASSERT, hc,
    beq_self_eq_true, if_true, ends_modifyCb, ends_modifyEvent]
  split_ifs with h0 h1
  · simp only [recvPrepareRspAttach, ends_bind, ends_getEvent, ends_getCb, ends_modifyEvent,
      pushAttachMessage, ends_modifyCb, ends_postRecvs, ends_setNextRecv,
      ends_checkEventReady_false]
    refine (fitAttachMems_ends _ _ _ hu).mono_ok ?_
    rintro mems t ⟨n, rfl⟩
    refine ⟨?_, cev, rfl, ?_⟩
    · simpa [hq] using length_pushed mems
    · simp only [Function.update_self]
      exact fun _ => Ripe.takeResponse _ mId mStatus ‹_›
  · simp only [ends_recvPrepareFileIov, ends_checkEventReady_false]
    split_ifs with h2
    · exact ⟨.inr ⟨UInt64.pos_iff_ne_zero.1 h1, rfl, _, by simp only [hq, List.nil_append]; rfl,
        rfl, rfl⟩, cev, rfl, hripe⟩
    · exact excused_newChar h2 u
  · refine consistent_checkEventReady ?_ ha ⟨cev, rfl, hripe⟩ u
    exact hq

theorem consistent_recvMessageCb (hq : w.mRecvQ = []) (ha : A iov.alloc)
    (hc : w.mRecvCb.cev = none) :
    Ends (recvMessageCb env iov) w (fun _ => Consistent env A) fun f _ => Excused env w f := by
  unfold recvMessageCb
  rcases env.deserialize iov.base _ with _ | mId | ⟨mId, mStatus⟩ | mId
  · simp only [sendBadMsgErr, ends_bind, ends_newChar, ends_call, ends_getCb, ends_pure]
    split_ifs with h
    · exact consistent_prepare2Drain (by exact hq) ha _ w
    · exact excused_newChar h w
  · simp only [ends_bind, ends_getCb, ends_ite, ends_pure]
    refine (consistent_recvReqMsg hq ha hc mId w).mono_ok ?_
    rintro _ t ⟨rfl, ht⟩
    exact ht
  · simp only [recvRspMsg, ends_bind, ends_getAndRmEvent, ends_getCb, ends_ite, ends_pure]
    cases hl : w.mSendEventMap.lookup mId.toUInt32 with
    | none => exact consistent_prepare2Drain (by exact hq) ha _ w
    | some cev =>
      have hm : w.mSendEventMap ≠ [] := fun h => by simp [h] at hl
      refine (consistent_recvRspEvent (by exact hq) ha (by exact hc) cev mId mStatus hm).mono_ok ?_
      rintro _ t ⟨rfl, ht⟩
      exact ht
  · simp only [ends_bind, ends_getCb, ends_pure]
    exact consistent_prepare2Drain hq ha _ w

theorem recvFileName_keeps (first : Bool) (h : Owned w) :
    Ends (recvFileName env w.mRecvCb first) w (fun _ t => Keeps w t ∧ Owned t)
      fun _ _ => False := by
  obtain ⟨cev, hcev, hripe⟩ := h
  unfold recvFileName
  cases first with
  | false => exact ⟨⟨Stays.refl w, rfl, rfl, rfl⟩, cev, hcev, hripe⟩
  | true =>
    have hset : ∀ e : CommEvent, ∀ p, (e.setAttachFilePath p).serverGen = e.serverGen := by
      intro e p
      unfold CommEvent.setAttachFilePath
      split_ifs <;> rfl
    simp only [hcev, if_true]
    refine ⟨⟨⟨rfl, rfl, rfl, id, serverGen_update fun h => ?_, fun _ => .inl⟩, rfl, rfl, rfl⟩,
      cev, hcev, ?_⟩
    · rwa [hset]
    simp only [Function.update_self]
    exact hripe.setAttachFilePath _

theorem writeToFile_keeps (fileName : Path) (data : List UInt8) (append : Bool) (h : Owned w) :
    Ends (writeToFile env fileName data append) w (fun _ t => Keeps w t ∧ Owned t)
      fun _ _ => False := by
  simp only [writeToFile, ends_bind, ends_get]
  cases env.disk w.writes <;>
    exact ⟨⟨⟨rfl, rfl, rfl, id, fun _ => id, fun _ => .inl⟩, rfl, rfl, rfl⟩, h⟩

/-- After a block of a file the connection waits for the next, or is at the end of the frame. -/
theorem recvFile_ends {Q : World → Prop} {R : Fault → World → Prop} (ho : Owned w)
    (hidle : ∀ t, t.mRecvQ = w.mRecvQ → t.mNextRecvPart = w.mNextRecvPart → Owned t → Q t)
    (hlast : ∀ t, t.mRecvQ = w.mRecvQ → Owned t →
      Ends (checkEventReady env true iov) t (fun _ => Q) R) :
    Ends (recvFile env iov) w (fun _ => Q) R := by
  simp only [recvFile, ends_bind, ends_getCb]
  refine (recvFileName_keeps _ ho).mono ?_ fun _ _ => False.elim
  rintro fileName u ⟨hu, huo⟩
  refine (writeToFile_keeps fileName _ _ huo).mono ?_ fun _ _ => False.elim
  rintro ok t ⟨ht, hto⟩
  have hk := hu.trans ht
  cases ok with
  | false => exact hidle t hk.recvQ hk.nextRecv hto
  | true =>
    simp only [if_true, ends_bind, ends_modifyCb, ends_ite, ends_pure]
    by_cases hr : w.mRecvCb.remainVecs - 1 = 0
    · simp only [hr, if_true]
      exact hlast _ hk.recvQ hto
    · simp only [hr, if_false]
      exact hidle _ hk.recvQ hk.nextRecv hto

theorem consistent_recvFile (hn : w.mNextRecvPart = .ATTACHFILE) (hq : w.mRecvQ = [])
    (ha : A iov.alloc) (ho : Owned w) :
    Ends (recvFile env iov) w (fun _ => Consistent env A) fun f _ => Excused env w f := by
  refine recvFile_ends ho (fun t hrecv hnext hto => ?_) fun t hrecv hto =>
    consistent_checkEventReady (hrecv.trans hq) ha hto w
  simp only [Consistent, hnext, hn]
  exact ⟨.inl (hrecv.trans hq), hto⟩

theorem consistent_recvDrain (hn : w.mNextRecvPart = .DRAIN) (hq : w.mRecvQ = [])
    (ha : A iov.alloc) (hz : iov.size = 0 → w.mRecvCb.remainVecs = 1) :
    Ends (recvDrain env iov) w (fun _ => Consistent env A) fun f _ => Excused env w f := by
  simp only [recvDrain, ends_bind, ends_modifyCb, ends_getCb, ends_ite, ends_setNextRecv,
    repostIoVec, ends_newChar, ends_postRecv, ends_pure]
  split_ifs with h0 h1
  · refine recvErrCb_keeps.mono ?_ fun _ _ => False.elim
    intro _ t ht
    split_ifs with h
    · exact ⟨iov.renew HDR_LEN, by simp [ht.recvQ, hq], rfl, ha⟩
    · exact excused_newChar h w
  · simp only [Consistent, hn, hq]
    exact ⟨_, rfl, ha, fun _ => h1⟩
  · simp only [Consistent, hn, hq]
    refine ⟨_, rfl, ha, fun h => absurd ?_ h0⟩
    rw [hz h]
    rfl

theorem consistent_recvHeaderCb {data : List UInt8} (hq : w.mRecvQ = []) (hs : iov.size = HDR_LEN)
    (ha : A iov.alloc) (hrpc : (PackHeader.decode data).isRpc → iov.alloc = .SYS_ALLOC) :
    Ends (recvHeaderCb env (iov.fill data)) w (fun _ => Consistent env A)
      fun f _ => Excused env w f := by
  simp only [recvHeaderCb, ends_bind, ends_ASSERT, IoVec.fill_size, IoVec.fill_base,
    IoVec.fill_alloc, hs, beq_self_eq_true, if_true, ends_modifyCb]
  by_cases h0 : (PackHeader.decode data).isRpc
  · simp only [h0, if_true, ends_bind, ends_ASSERT, hrpc h0, beq_self_eq_true, ends_setNextRecv,
      repostIoVec, ends_newChar, ends_postRecv, ends_pure]
    split_ifs with h1
    · exact ⟨⟨(iov.fill data).renew (PackHeader.decode data).mMsgLen.toNat, by simp [hq], ha⟩, rfl⟩
    · exact excused_newChar h1 w
  · simp only [h0, Bool.false_eq_true, if_false, ends_bind, ends_getCb, ends_pure]
    exact consistent_prepare2Drain (by exact hq) ha _ w

/-- The last attachment gives its place to the file behind it or to the next header; the ones before
leave one less. -/
theorem consistent_recvAttachCb (hn : w.mNextRecvPart = .ATTACHMENT)
    (hq : w.mRecvQ.length + 1 = w.mRecvCb.remainVecs.toNat) (ho : Owned w)
    (hf : w.mRecvCb.remainVecs = 1 → w.mRecvCb.fileLen = 0 → A iov.alloc) :
    Ends (recvAttachCb env iov) w (fun _ => Consistent env A) fun f _ => Excused env w f := by
  have hrem : (w.mRecvCb.remainVecs - 1).toNat = w.mRecvQ.length := by
    rw [UInt32.toNat_sub_of_le _ _ (by rw [UInt32.le_iff_toNat_le]; simp; omega)]
    simp
    omega
  have hlast : w.mRecvCb.remainVecs - 1 = 0 → w.mRecvQ = [] ∧ w.mRecvCb.remainVecs = 1 := by
    intro h0
    rw [h0] at hrem
    refine ⟨List.length_eq_zero_iff.1 hrem.symm, ?_⟩
    rw [← UInt32.toNat_inj, ← hq, ← hrem]
    rfl
  simp only [recvAttachCb, ends_bind, ends_modifyCb, ends_getCb, ends_ite, ends_pure, recvAttach,
    ends_recvPrepareFileIov, ends_checkEventReady_false]
  split_ifs with h0 h1 h2
  · exact consistent_checkEventReady (by exact (hlast h0).1) (hf (hlast h0).2 h1) (by exact ho) w
  · exact ⟨.inr ⟨h1, rfl, _, by rw [(hlast h0).1, List.nil_append], rfl, rfl⟩, ho⟩
  · exact excused_newChar h2 w
  · simp only [Consistent, hn]
    exact ⟨.inr hrem.symm, ho⟩

/-- A consistent connection stays so, where a header the connection supports comes in a vector of
its own, and where the vector of the last memory attachment may be reposted. -/
theorem recvCallback_consistent {v : IoVec} {q : List IoVec} {data : List UInt8}
    (hA : A .SYS_ALLOC) (hw : Consistent env A w) (hq : w.mRecvQ = v :: q)
    (hrpc : w.mNextRecvPart = .HEADER → (PackHeader.decode data).isRpc → v.alloc = .SYS_ALLOC)
    (hf : w.mNextRecvPart = .ATTACHMENT → w.mRecvCb.remainVecs = 1 → w.mRecvCb.fileLen = 0 →
      A v.alloc) :
    Ends (recvCallback env (v.fill data) .DONE) { w with mRecvQ := q } (fun _ => Consistent env A)
      fun f _ => Excused env w f := by
  simp only [recvCallback, ends_bind, ends_getNextRecv]
  unfold Consistent at hw
  cases hn : w.mNextRecvPart with
  | HEADER =>
    simp only [hn, hq, List.cons.injEq] at hw
    obtain ⟨v, ⟨rfl, rfl⟩, hsize, ha⟩ := hw
    exact consistent_recvHeaderCb rfl hsize ha (hrpc hn)
  | MESSAGE =>
    simp only [hn, hq, List.cons.injEq] at hw
    obtain ⟨⟨v, ⟨rfl, rfl⟩, ha⟩, hc⟩ := hw
    exact consistent_recvMessageCb rfl ha hc
  | ATTACHMENT =>
    simp only [hn, hq, reduceCtorEq, false_or] at hw
    exact consistent_recvAttachCb rfl hw.1 hw.2 (hf hn)
  | ATTACHFILE =>
    simp only [hn, hq, reduceCtorEq, false_or, FileBegins, List.cons.injEq] at hw
    obtain ⟨⟨-, -, v, ⟨rfl, rfl⟩, ha, -⟩, ho⟩ := hw
    refine consistent_recvFile rfl rfl ?_ ho
    rw [IoVec.fill_alloc, ha]
    exact hA
  | DRAIN =>
    simp only [hn, hq, List.cons.injEq] at hw
    obtain ⟨v, ⟨rfl, rfl⟩, ha, hz⟩ := hw
    exact consistent_recvDrain rfl rfl ha hz

theorem deliver_consistent {w' : World} {data : List UInt8} (hw : Consistent env IsSys w)
    (hf : FileFollows w data) (hs : (deliver env).step w data = some w') :
    Consistent env IsSys w' := by
  obtain ⟨v, q, rc, hq, -, hx⟩ := (deliver_eq_some env).1 hs
  have hA : IsSys .SYS_ALLOC := rfl
  refine (recvCallback_consistent hA hw hq ?_ ?_).ok hx
  · intro hn _
    simp only [Consistent, hn, hq, List.cons.injEq] at hw
    obtain ⟨v, ⟨rfl, rfl⟩, -, ha⟩ := hw
    exact ha
  · exact fun hn hr hl => absurd hl (hf hn hr)

/-! ## The header turn -/

/-- The connection has just been made: `Conn()`, then `connCallback(ON_CONNECT)`. -/
def Connected (w : World) : Prop :=
  ∃ w₀, w₀.mNextRecvPart = .HEADER ∧ w₀.mRecvQ = [] ∧ onConnect w₀ = .ok () w

/-- In the `HEADER` state a vector of the connection's own and of the size of a header completes
next, and `recvHeaderCb` fails no assertion. -/
def HeaderTurn (env : Env) (w : World) : Prop :=
  w.mNextRecvPart = .HEADER → ∀ v q, w.mRecvQ = v :: q →
    v.size = HDR_LEN ∧ v.alloc = .SYS_ALLOC ∧
      ∀ data d t, recvHeaderCb env (v.fill data) { w with mRecvQ := q } ≠ .error (.assertFailed d) t

theorem Connected.consistent (h : Connected w) : Consistent env IsSys w := by
  obtain ⟨w₀, hn, hq, hc⟩ := h
  rw [← ends_iff_ok] at hc
  simp only [onConnect, ends_bind, ends_postRecv, ends_modifyCb, true_and] at hc
  simp only [← hc, Consistent, hn, hq]
  exact ⟨prepareRecvHeader, rfl, rfl, rfl⟩

theorem Consistent.headerTurn (h : Consistent env IsSys w) : HeaderTurn env w := by
  intro hn v q hq
  simp only [Consistent, hn, hq, List.cons.injEq] at h
  obtain ⟨v, ⟨rfl, rfl⟩, hs, ha⟩ := h
  refine ⟨hs, ha, fun data d t hx => ?_⟩
  rcases (consistent_recvHeaderCb rfl hs ha fun _ => ha).error hx with ⟨h, -⟩ | ⟨h, -⟩ <;> cases h

/-- A connection stays consistent over every run in which each frame with memory attachments has a
file behind them. -/
theorem run_consistent {w' : World} {datas : List (List UInt8)} (hw : Connected w)
    (hf : (deliver env).Meets FileFollows w datas) (hr : (deliver env).run w datas = some w') :
    Consistent env IsSys w' :=
  (deliver env).run_inv (fun _ _ _ hs hf => deliver_consistent hs hf) datas hw.consistent hf hr

theorem Consistent.file (h : Consistent env A w) (hn : w.mNextRecvPart = .ATTACHFILE)
    (hq : w.mRecvQ ≠ []) : FileBegins env w ∧ Owned w := by
  simp only [Consistent, hn, hq, false_or] at h
  exact h

/-- In every run in which each frame with memory attachments has a file behind them, whenever the
connection is in the `HEADER` state the next vector is one for a header. -/
theorem header_turn (env : Env) (w w' : World) (datas : List (List UInt8)) (hw : Connected w)
    (hf : (deliver env).Meets FileFollows w datas) (hr : (deliver env).run w datas = some w') :
    HeaderTurn env w' :=
  (run_consistent hw hf hr).headerTurn

section Samples

/-- Blocks of 64 bytes, every buffer granted and every message a request. -/
def sampleEnv : Env where
  gMaxBlockSize := 64
  gMaxBlockSize_pos := by decide
  gMaxBlockSize_lt := by decide
  deserialize := fun _ _ => some (.request 7)
  mem := fun _ => true
  disk := fun _ => .written
  select := fun _ => []
  usec := fun _ => 0

/-- The header of a frame with a one-byte message. -/
def sampleHeader (attLen fileLen : UInt64) : PackHeader where
  mType i := MSG_TYPE_RPC.getD i 0
  mMsgLen := 1
  mAttLen := attLen
  mFileLen := fileLen

/-- The state after `connCallback(ON_CONNECT)`. -/
def sampleWorld : World := { mRecvQ := [prepareRecvHeader] }

theorem connected_sampleWorld : Connected sampleWorld := by
  refine ⟨{}, rfl, rfl, ?_⟩
  rw [← ends_iff_ok]
  simp [onConnect, sampleWorld]

/-- A frame with an attached byte and a file of one byte. -/
theorem header_turn_request : ∃ w',
    (deliver sampleEnv).run sampleWorld [(sampleHeader 1 1).encode, [0], [0], [0]] = some w'
      ∧ HeaderTurn sampleEnv w' := by
  have hr : ((deliver sampleEnv).run sampleWorld
      [(sampleHeader 1 1).encode, [0], [0], [0]]).isSome := by
    decide +kernel
  obtain ⟨w', hw'⟩ := Option.isSome_iff_exists.1 hr
  exact ⟨w', hw', header_turn sampleEnv sampleWorld w' _ connected_sampleWorld (by decide +kernel)
    hw'⟩

/-- After a frame with one attached byte and no file the header vector is the attachment's. -/
theorem attachment_reused : Connected sampleWorld ∧ ∃ w',
    (deliver sampleEnv).run sampleWorld [(sampleHeader 1 0).encode, [0], [0]] = some w'
      ∧ ¬ HeaderTurn sampleEnv w' := by
  have hr : ((deliver sampleEnv).run sampleWorld [(sampleHeader 1 0).encode, [0], [0]]).map
      (fun w => (w.mNextRecvPart, w.mRecvQ))
        = some (.HEADER, [{ base := [], size := HDR_LEN, alloc := .USER_ALLOC }]) := by
    decide +kernel
  obtain ⟨w', hw', hn⟩ := Option.map_eq_some_iff.1 hr
  rw [Prod.mk.injEq] at hn
  refine ⟨connected_sampleWorld, w', hw', fun h => ?_⟩
  cases (h hn.1 _ _ hn.2).2.1

end Samples

end Longda
