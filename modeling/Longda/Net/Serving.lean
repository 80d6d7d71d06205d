import Longda.Net.Supply
import Longda.Net.RecvData

/-!
# A server's connection and its removal

`Attached` is a connection a receive thread may work on: in the map, not being cleaned up, with no
lock held and none of its events waiting for a response. From there `release` only gives a reference
back, and `remove` takes the connection out of the map and tears it down, or leaves that to the last
reference (`Attached.remove`). The teardown needs the lock of the receive queue: a thread that holds
it never gets past `cleanup` to a connection without it (`remove_held`).
-/

namespace Longda

open Lib

/-- Each vector to be sent that has a parameter answers an event of the server. -/
def Answers (l : Link) (v : SendVec) : Prop :=
  ∀ cbp ∈ v.cbParam, ∃ cev, cbp.cev = some cev ∧ (l.events cev).serverGen = true

structure Attached (l : Link) : Prop where
  free : ∀ m, l.held m = false
  inMap : l.inMap = true
  deleted : l.deleted = false
  cleaning : l.mCleaning = false
  refCount : 0 ≤ l.mRefCount
  eventMap : l.mSendEventMap = []
  answers : ∀ v ∈ l.mSendQ, Answers l v
  answersCur : ∀ v ∈ l.mCurSendBlock, Answers l v

/-- The connection as its callbacks find it: with the receive queue locked, and the vector in
progress as it was posted in its place at the front. -/
def Link.posted (l : Link) : World :=
  { l.toWorld with
    mRecvQ := (l.mCurRecvBlock.map (IoVec.fill · [])).toList ++ l.mRecvQ
    held := Function.update l.held .mRecvMutex true }

/-- The bytes received into the vector in progress. -/
def Link.got (l : Link) : List UInt8 := l.mCurRecvBlock.elim [] IoVec.base

/-- A server's connection between two vectors, with the consistent state of `Consistent`. -/
structure Serving (env : Env) (l : Link) : Prop extends Attached l where
  progress : ∀ v ∈ l.mCurRecvBlock, v = v.fill v.base ∧ (v.base = [] ∨ v.base.length < v.size)
  fresh : ∀ v ∈ l.mRecvQ, v.fill [] = v
  consistent : Consistent env (fun _ => True) l.posted

/-- Out of the map, and torn down or kept by those who still have references. -/
structure Removed (l : Link) : Prop where
  free : ∀ m, l.held m = false
  inMap : l.inMap = false
  cleaning : l.mCleaning = true
  gone : l.deleted = true ∨ 0 < l.mRefCount

variable {env : Env} {files : Files} {l : Link} {m : MutexId}

/-- What flushing a queue leaves alone. -/
structure Calm (l t : Link) : Prop where
  held : t.held = l.held
  refCount : t.mRefCount = l.mRefCount
  cleaning : t.mCleaning = l.mCleaning
  eventMap : l.mSendEventMap = [] → t.mSendEventMap = []
  serverGen : ∀ cev, (l.events cev).serverGen = true → (t.events cev).serverGen = true
  inMap : t.inMap = l.inMap

theorem Calm.refl (l : Link) : Calm l l := ⟨rfl, rfl, rfl, id, fun _ => id, rfl⟩

theorem Calm.trans {a b c : Link} (h : Calm a b) (k : Calm b c) : Calm a c where
  held := k.held.trans h.held
  refCount := k.refCount.trans h.refCount
  cleaning := k.cleaning.trans h.cleaning
  eventMap := k.eventMap ∘ h.eventMap
  serverGen cev := k.serverGen cev ∘ h.serverGen cev
  inMap := k.inMap.trans h.inMap

theorem Stays.calm {w : World} (h : Stays l.toWorld w) : Calm l { l with toWorld := w } :=
  ⟨h.held, h.refCount, h.cleaning, h.eventMap, h.serverGen, rfl⟩

theorem Answers.of_calm {v : SendVec} {t : Link} (h : Answers l v) (ht : Calm l t) : Answers t v :=
  fun cbp hc => (h cbp hc).imp fun cev hcev => ⟨hcev.1, ht.serverGen cev hcev.2⟩

/-- The sending side is as it was. -/
def SameSend (l t : Link) : Prop := t.mSendQ = l.mSendQ ∧ t.mCurSendBlock = l.mCurSendBlock

theorem recvCallback_vecState (how : CleanupT) (v : IoVec) :
    recvCallback env v how.vecState = recvErrCb := by
  cases how <;> rfl

theorem inWorld_recvErrCb :
    Ends (inWorld recvErrCb) l (fun _ t => Calm l t ∧ SameSend l t) fun _ _ => False := by
  rw [ends_inWorld]
  exact recvErrCb_keeps.mono_ok fun _ w hw => ⟨hw.toStays.calm, rfl, rfl⟩

theorem cleanupRecvQ_ends (how : CleanupT) (q : List IoVec) :
    Ends (cleanupRecvQ env how q) l (fun _ t => Calm l t ∧ SameSend l t) fun _ _ => False := by
  induction q generalizing l with
  | nil => exact ⟨Calm.refl l, rfl, rfl⟩
  | cons v q ih =>
    simp only [cleanupRecvQ, recvCallback_vecState, ends_bind, ends_modify]
    refine inWorld_recvErrCb.mono_ok fun _ u hu => ih.mono_ok fun _ t ht => ?_
    refine ⟨hu.1.trans (Calm.trans ?_ ht.1), ht.2.1.trans hu.2.1, ht.2.2.trans hu.2.2⟩
    exact ⟨rfl, rfl, rfl, id, fun _ => id, rfl⟩

/-- A response that cannot be sent fails its event and nothing more. -/
theorem sendCallback_ends (how : CleanupT) (v : SendVec) (hv : Answers l v) :
    Ends (sendCallback files v how.vecState) l
      (fun _ t => Calm l t ∧ t.mCurRecvBlock = l.mCurRecvBlock) fun _ _ => False := by
  unfold sendCallback
  rcases hc : v.cbParam with _ | cbp
  · exact ⟨Calm.refl l, rfl⟩
  · obtain ⟨cev, hcev, hgen⟩ := hv cbp hc
    have hstate : sendCallbackFile files (some cbp) how.vecState = ([], how.vecState) := by
      cases how <;> rfl
    simp only [hstate, hcev, ends_bind, ends_modify, ends_inWorld, ends_getEvent, hgen, if_true,
      sendRspCallback, ends_ASSERT]
    cases how <;>
    · simp only [CleanupT.vecState, ends_completeEvent]
      exact ⟨⟨rfl, rfl, rfl, id, serverGen_update fun h => h, rfl⟩, trivial⟩

theorem cleanupSendQ_ends (how : CleanupT) (q : List SendVec) (hq : ∀ v ∈ q, Answers l v) :
    Ends (cleanupSendQ files how q) l (fun _ t => Calm l t ∧ t.mCurRecvBlock = l.mCurRecvBlock)
      fun _ _ => False := by
  induction q generalizing l with
  | nil => exact ⟨Calm.refl l, rfl⟩
  | cons v q ih =>
    simp only [cleanupSendQ, ends_bind, ends_modify]
    refine (sendCallback_ends how v (hq v List.mem_cons_self)).mono_ok ?_
    rintro _ u ⟨hu, hub⟩
    have hu' : Calm l { u with mSendQ := q } := hu.trans ⟨rfl, rfl, rfl, id, fun _ => id, rfl⟩
    refine (ih fun v hv => (hq v (.tail _ hv)).of_calm hu').mono_ok ?_
    rintro _ t ⟨ht, htb⟩
    exact ⟨hu'.trans ht, htb.trans hub⟩

/-! ## Teardown -/

theorem flushRecv_ends (how : CleanupT) (hf : l.held .mRecvMutex = false) :
    Ends (flushRecv env how) l (fun _ t => Calm l t ∧ SameSend l t ∧ t.mCurRecvBlock = none)
      fun _ _ => False := by
  simp only [flushRecv, ends_bind, ends_lock, hf, Bool.false_eq_true, if_false, ends_get,
    recvCallback_vecState, ends_modify, ends_unlock]
  refine (cleanupRecvQ_ends how _).mono_ok ?_
  rintro _ a ⟨ha, has⟩
  have hcur : Ends (l.mCurRecvBlock.forM fun _ => do let _ ← inWorld recvErrCb) a
      (fun _ t => Calm a t ∧ SameSend a t) fun _ _ => False := by
    cases l.mCurRecvBlock with
    | none => exact ⟨Calm.refl a, rfl, rfl⟩
    | some v =>
      change Ends (inWorld recvErrCb >>= fun _ => pure ()) a _ _
      rw [ends_bind]
      exact inWorld_recvErrCb
  refine hcur.mono_ok ?_
  rintro _ b ⟨hb, hbs⟩
  have hheld : b.held = Function.update l.held .mRecvMutex true := hb.held.trans ha.held
  simp only [hheld, Function.update_self, if_true, update_free hf]
  refine ⟨?_, ⟨hbs.1.trans has.1, hbs.2.trans has.2⟩, trivial⟩
  have hab := ha.trans hb
  exact ⟨rfl, hab.refCount, hab.cleaning, hab.eventMap, hab.serverGen, hab.inMap⟩

theorem flushSend_ends (how : CleanupT) (hf : l.held .mSendMutex = false)
    (hq : ∀ v ∈ l.mSendQ, Answers l v) (hc : ∀ v ∈ l.mCurSendBlock, Answers l v) :
    Ends (flushSend files how) l
      (fun _ t => Calm l t ∧ t.mCurRecvBlock = l.mCurRecvBlock ∧ t.mCurSendBlock = none)
      fun _ _ => False := by
  simp only [flushSend, ends_bind, ends_lock, hf, Bool.false_eq_true, if_false, ends_get,
    ends_modify, ends_unlock]
  refine (cleanupSendQ_ends how _ (by exact hq)).mono_ok ?_
  rintro _ a ⟨ha, has⟩
  have hcur : Ends (l.mCurSendBlock.forM fun v => sendCallback files v how.vecState) a
      (fun _ t => Calm a t ∧ t.mCurRecvBlock = a.mCurRecvBlock) fun _ _ => False := by
    cases hv : l.mCurSendBlock with
    | none => exact ⟨Calm.refl a, rfl⟩
    | some v => exact sendCallback_ends how v (Answers.of_calm (by exact hc v hv) ha)
  refine hcur.mono_ok ?_
  rintro _ b ⟨hb, hbs⟩
  have hheld : b.held = Function.update l.held .mSendMutex true := hb.held.trans ha.held
  simp only [hheld, Function.update_self, if_true, update_free hf]
  refine ⟨?_, hbs.trans has, trivial⟩
  have hab := ha.trans hb
  exact ⟨rfl, hab.refCount, hab.cleaning, hab.eventMap, hab.serverGen, hab.inMap⟩

/-- A thread that holds no lock of the connection tears it down where nobody refers to it. -/
theorem teardown_ends (how : CleanupT) (hf : ∀ m, m ≠ .mapMutex → l.held m = false)
    (hr : l.mRefCount = 0) (hm : l.mSendEventMap = []) (hq : ∀ v ∈ l.mSendQ, Answers l v)
    (hc : ∀ v ∈ l.mCurSendBlock, Answers l v) :
    Ends (teardown env files how) l
      (fun _ t => t.held = l.held ∧ t.deleted = true ∧ t.mCleaning = l.mCleaning)
      fun _ _ => False := by
  simp only [teardown, ends_bind, ends_modify]
  refine (flushRecv_ends how (hf _ (by decide))).mono_ok ?_
  rintro _ a ⟨ha, ⟨hsq, hsb⟩, harb⟩
  refine (flushSend_ends how (by rw [ha.held, hf _ (by decide)]) ?_ ?_).mono_ok ?_
  · rw [hsq]
    exact fun v hv => (hq v hv).of_calm ha
  · rw [hsb]
    exact fun v hv => Answers.of_calm (hc v hv) ha
  rintro _ b ⟨hb, hbrb, hbsb⟩
  have hab := ha.trans hb
  have hheld : b.held = l.held := hab.held
  have hfree := hf .mEventMapMutex (by decide)
  simp only [onDisconnect, ends_bind, ends_lock, ends_unlock, ends_get, ends_modify, hheld, hfree,
    Bool.false_eq_true, if_false, hab.eventMap hm, deleteConn, ends_inWorld, ends_ASSERT, ends_set,
    hbsb, hbrb, harb, hab.refCount, hr, hab.cleaning]
  exact ⟨update_free hfree, trivial, rfl⟩

/-- Who cleans a connection up marks it, and tears it down where he is the last. -/
theorem cleanup_ends (how : CleanupT) (hf : ∀ m, m ≠ .mapMutex → l.held m = false)
    (hr : 0 ≤ l.mRefCount) (hm : l.mSendEventMap = []) (hq : ∀ v ∈ l.mSendQ, Answers l v)
    (hc : ∀ v ∈ l.mCurSendBlock, Answers l v) :
    Ends (cleanup env files how) l (fun _ t => t.held = l.held ∧ t.mCleaning = true
      ∧ (t.deleted = true ∨ 0 < t.mRefCount)) fun _ _ => False := by
  have hfree := hf .mMutex (by decide)
  simp only [cleanup, ends_bind, ends_lock, hfree, Bool.false_eq_true, if_false, ends_modify,
    ends_get, ends_ite, ends_unlock, Function.update_self, if_true, update_free hfree, ends_pure]
  split_ifs with h
  · exact ⟨trivial, trivial, .inr h⟩
  · refine (teardown_ends how (by exact hf) (by exact le_antisymm (not_lt.1 h) hr) (by exact hm)
      (by exact hq) (by exact hc)).mono_ok ?_
    exact fun _ t ht => ⟨ht.1, ht.2.2, .inl ht.2.1⟩

/-- A thread that holds the lock of the receive queue gets no further than its own lock. -/
theorem cleanup_held (how : CleanupT) (hr : l.held .mRecvMutex = true) :
    Ends (cleanup env files how) l (fun _ t => t.held .mRecvMutex = true) fun _ _ => True := by
  have hne : ∀ b (h : MutexId → Bool), Function.update h .mMutex b .mRecvMutex = h .mRecvMutex :=
    fun b h => Function.update_of_ne (by decide) b h
  simp only [cleanup, ends_bind, ends_lock, ends_modify, ends_get, ends_ite, ends_unlock,
    Function.update_self, if_true, ends_pure, hne, hr, teardown, flushRecv]
  split_ifs

/-! ## References and removal -/

theorem release_ends (hf : l.held .mMutex = false) (hc : l.mCleaning = false) :
    Ends (release env files) l (fun _ t => t = { l with mRefCount := l.mRefCount - 1 })
      fun _ _ => False := by
  simp [release, hf, hc]

theorem release_held (hr : l.held .mRecvMutex = true) :
    Ends (release env files) l (fun _ t => t.held .mRecvMutex = true) fun _ _ => True := by
  have hne : ∀ b (h : MutexId → Bool), Function.update h .mMutex b .mRecvMutex = h .mRecvMutex :=
    fun b h => Function.update_of_ne (by decide) b h
  simp only [release, ends_bind, ends_lock, ends_modify, ends_get, ends_ite, ends_unlock,
    Function.update_self, if_true, ends_pure, hne, hr]
  split_ifs
  exact cleanup_held _ (by simp only [hne, hr])

theorem Attached.remove (h : Attached l) :
    Ends (remove env files) { l with held := Function.update l.held .mapMutex true }
      (fun _ t => t.held = Function.update l.held .mapMutex true ∧ t.inMap = false
        ∧ t.mCleaning = true ∧ (t.deleted = true ∨ 0 < t.mRefCount)) fun _ _ => False := by
  simp only [Longda.remove, ends_bind, ends_get, h.inMap, if_true, ends_modify]
  refine (cleanup_ends .ON_ERROR (fun m hm => ?_) (by exact h.refCount) (by exact h.eventMap)
    (by exact h.answers) (by exact h.answersCur)).mono_ok ?_
  · exact (Function.update_of_ne hm _ _).trans (h.free m)
  · exact fun _ t ht => ⟨ht.1, trivial, ht.2⟩

theorem remove_held (hr : l.held .mRecvMutex = true) :
    Ends (remove env files) l (fun _ t => t.held .mRecvMutex = true) fun _ _ => True := by
  simp only [Longda.remove, ends_bind, ends_get, ends_ite, ends_modify, ends_pure, hr]
  split_ifs
  exact cleanup_held _ hr

end Longda
