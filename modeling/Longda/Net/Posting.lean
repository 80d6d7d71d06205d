import Longda.Net.RecvProgress
import Longda.Net.RecvRun

/-!
# A connection under its receiver

`Receiver` moves the bytes of a stream into vectors, and `deliver` is what a connection does with
the vectors that are full. Here the one is put under the other: the callback of the receiver is the
connection's (`World.posting`), so that a run of the receiver is a run of the connection on the
stream, however the kernel cuts the stream.

A receive callback does nothing to the queue but append fresh vectors (`OnlyPosts`), so the vectors
of the receiver and those on `mRecvQ` are the same ones all along (`Aligned`), and the vectors
completed are the pieces that the connection would take from the stream (`completed_pieces`).
-/

namespace Longda

open Lib

/-! ## What the callbacks post -/

/-- The queue is as it was, with fresh vectors behind it. -/
def Posts (w t : World) : Prop := ∃ vs, t.mRecvQ = w.mRecvQ ++ vs ∧ ∀ v ∈ vs, v.xferred = 0

theorem Posts.of_eq {w t : World} (h : t.mRecvQ = w.mRecvQ) : Posts w t :=
  ⟨[], by simp [h], by simp⟩

theorem Posts.trans {a b c : World} (h : Posts a b) (k : Posts b c) : Posts a c := by
  obtain ⟨vs, hq, hvs⟩ := h
  obtain ⟨us, hq', hus⟩ := k
  refine ⟨vs ++ us, by rw [hq', hq, List.append_assoc], fun v hv => ?_⟩
  exact (List.mem_append.1 hv).elim (hvs v) (hus v)

/-- Wherever it returns, the computation has only posted. -/
def OnlyPosts {α : Type} (x : RecvM α) : Prop :=
  ∀ w, Ends x w (fun _ => Posts w) fun _ _ => True

namespace OnlyPosts

variable {α β : Type} {x y : RecvM α}

theorem bind {f : α → RecvM β} (hx : OnlyPosts x) (hf : ∀ a, OnlyPosts (f a)) :
    OnlyPosts (x >>= f) := fun w => by
  rw [ends_bind]
  refine (hx w).mono_ok fun a t ht => ?_
  exact (hf a t).mono_ok fun _ _ => ht.trans

theorem pure (a : α) : OnlyPosts (pure a : RecvM α) := fun _ => .of_eq rfl

theorem throw (f : Fault) : OnlyPosts (throw f : RecvM α) := fun _ => trivial

theorem ite {c : Prop} [Decidable c] (hx : c → OnlyPosts x) (hy : ¬ c → OnlyPosts y) :
    OnlyPosts (if c then x else y) := by
  split_ifs with h
  · exact hx h
  · exact hy h

theorem get : OnlyPosts (get : RecvM World) := fun _ => .of_eq rfl

/-- A computation that leaves the queue alone. -/
theorem of_keeps (h : ∀ w, Ends x w (fun _ t => t.mRecvQ = w.mRecvQ) fun _ _ => True) :
    OnlyPosts x := fun w => (h w).mono_ok fun _ _ => .of_eq

theorem modify {f : World → World} (hf : ∀ w, (f w).mRecvQ = w.mRecvQ) :
    OnlyPosts (modify f : RecvM PUnit) := fun w => .of_eq (hf w)

theorem modifyCb (f : CbParam → CbParam) : OnlyPosts (modifyCb f) := fun _ => .of_eq rfl

theorem getCb : OnlyPosts getCb := fun _ => .of_eq rfl

theorem getEvent (cev : EventId) : OnlyPosts (getEvent cev) := fun _ => .of_eq rfl

theorem modifyEvent (cev : EventId) (f : CommEvent → CommEvent) : OnlyPosts (modifyEvent cev f) :=
  fun _ => .of_eq rfl

theorem call (c : Call) : OnlyPosts (call c) := fun _ => .of_eq rfl

theorem completeEvent (cev : EventId) (stev : Int32) : OnlyPosts (completeEvent cev stev) :=
  of_keeps fun w => by simp

theorem setNextRecv (nr : NextRecv) : OnlyPosts (setNextRecv nr) := of_keeps fun w => by simp

theorem assert (c : Bool) (d : String) : OnlyPosts (ASSERT c d) := of_keeps fun w => by simp

theorem newChar (env : Env) : OnlyPosts (newChar env) := of_keeps fun w => by
  rw [ends_newChar]
  split_ifs
  rfl

theorem postRecv {iov : IoVec} (h : iov.xferred = 0) : OnlyPosts (postRecv iov) := fun w => by
  rw [ends_postRecv]
  exact ⟨[iov], rfl, by simp [h]⟩

theorem postRecvs {iovs : List IoVec} (h : ∀ v ∈ iovs, v.xferred = 0) :
    OnlyPosts (postRecvs iovs) := fun w => by
  rw [ends_postRecvs]
  exact ⟨iovs, rfl, h⟩

theorem repostIoVec (env : Env) (iov : IoVec) (n : ℕ) : OnlyPosts (repostIoVec env iov n) :=
  (newChar env).bind fun _ => postRecv rfl

end OnlyPosts

section Callbacks

variable (env : Env)

theorem onlyPosts_recvErrCb : OnlyPosts recvErrCb := .of_keeps fun _ =>
  recvErrCb_keeps.mono (fun _ _ h => h.recvQ) fun _ _ => False.elim

theorem onlyPosts_prepare2Drain (iov : IoVec) (leftSize : UInt64) :
    OnlyPosts (prepare2Drain env iov leftSize) := by
  unfold prepare2Drain repostReusedIoVec
  refine (OnlyPosts.call _).bind fun _ => .ite (fun _ => ?_) fun _ => ?_
  · exact (OnlyPosts.modifyCb _).bind fun _ => (((OnlyPosts.newChar env).bind fun _ =>
      (OnlyPosts.postRecv rfl).bind fun _ => .modifyCb _)).bind fun _ => .setNextRecv _
  · exact onlyPosts_recvErrCb.bind fun _ => (OnlyPosts.modifyCb _).bind fun _ =>
      (OnlyPosts.repostIoVec env _ _).bind fun _ => .setNextRecv _

theorem onlyPosts_checkEventReady (eventReady : Bool) (iov : IoVec) :
    OnlyPosts (checkEventReady env eventReady iov) := by
  have hdone : ∀ cev, OnlyPosts (eventDone cev) := by
    rintro (_ | cev)
    · exact .throw _
    · refine (OnlyPosts.modify (by exact fun _ => rfl)).bind fun _ =>
        (OnlyPosts.getEvent _).bind fun e => ?_
      refine .ite (fun _ => .call _) fun _ => .ite (fun _ => .throw _) fun _ => ?_
      split
      · exact .completeEvent _ _
      · exact .throw _
  exact .ite (fun _ => OnlyPosts.getCb.bind fun cbp => (hdone _).bind fun _ =>
    (OnlyPosts.setNextRecv _).bind fun _ => (OnlyPosts.modifyCb _).bind fun _ =>
    .repostIoVec env _ _) fun _ => .pure _

theorem onlyPosts_allocAttachIoVecs (baseLen : UInt64) :
    OnlyPosts (allocAttachIoVecs env baseLen) := .of_keeps fun w =>
  (allocAttachIoVecs_ends env baseLen w).mono (fun _ _ h => by rw [h.2.1]) fun _ _ _ => trivial

theorem onlyPosts_pushAttachMessage (mems : List VecT) : OnlyPosts (pushAttachMessage mems) := by
  refine (OnlyPosts.modifyCb _).bind fun _ => .postRecvs fun v hv => ?_
  obtain ⟨u, -, rfl⟩ := List.mem_map.1 hv
  rfl

theorem onlyPosts_recvPrepareFileIov : OnlyPosts (recvPrepareFileIov env) :=
  (OnlyPosts.modifyCb _).bind fun _ => OnlyPosts.getCb.bind fun _ =>
    (OnlyPosts.newChar env).bind fun _ => (OnlyPosts.modifyCb _).bind fun _ =>
    (OnlyPosts.setNextRecv _).bind fun _ => .postRecv rfl

theorem onlyPosts_recvReqMsg (mId : UInt64) (iov : IoVec) : OnlyPosts (recvReqMsg env mId iov) := by
  have hnew : ∀ mems, OnlyPosts (newServerEvent mId mems) := fun mems => .of_keeps fun w => by simp
  have htail : ∀ mems eventReady, OnlyPosts (do
      let cbp ← getCb
      ASSERT (cbp.cev == none) "cev must be 0"
      let cev ← newServerEvent mId mems
      modifyCb fun c => { c with cev := some cev }
      checkEventReady env eventReady iov
      pure ConnStatus.SUCCESS) := fun mems eventReady =>
    OnlyPosts.getCb.bind fun _ => (OnlyPosts.assert _ _).bind fun _ => (hnew _).bind fun _ =>
      (OnlyPosts.modifyCb _).bind fun _ => (onlyPosts_checkEventReady env _ _).bind fun _ => .pure _
  refine OnlyPosts.getCb.bind fun cbp => .ite (fun _ => ?_) fun _ => .ite (fun _ => ?_) fun _ => ?_
  · exact (onlyPosts_allocAttachIoVecs env _).bind fun _ => (onlyPosts_pushAttachMessage _).bind
      fun _ => (OnlyPosts.setNextRecv _).bind fun _ => (OnlyPosts.pure _).bind fun _ => htail _ _
  · exact (onlyPosts_recvPrepareFileIov env).bind fun _ => (OnlyPosts.pure _).bind
      fun _ => htail _ _
  · exact (OnlyPosts.pure _).bind fun _ => htail _ _

theorem onlyPosts_recvPrepareRspAttach (cev : EventId) :
    OnlyPosts (recvPrepareRspAttach env cev) := by
  have hfit : ∀ attLen mems, OnlyPosts (fitAttachMems env attLen mems) := by
    intro attLen mems
    refine .ite (fun _ => onlyPosts_allocAttachIoVecs env _) fun _ => .ite (fun _ => .pure _)
      fun _ => .ite (fun _ => ?_) fun _ =>
        (onlyPosts_allocAttachIoVecs env _).bind fun _ => .pure _
    split
    · exact .pure _
    · exact .throw _
  exact (OnlyPosts.getEvent cev).bind fun _ => OnlyPosts.getCb.bind fun _ => (hfit _ _).bind
    fun _ => (OnlyPosts.modifyEvent _ _).bind fun _ => (onlyPosts_pushAttachMessage _).bind
    fun _ => .setNextRecv _

theorem onlyPosts_recvRspMsg (mId : UInt64) (mStatus : Int32) (iov : IoVec) :
    OnlyPosts (recvRspMsg env mId mStatus iov) := by
  have hfind : OnlyPosts (getAndRmEvent mId.toUInt32) := .of_keeps fun w => by simp
  refine hfind.bind fun found => ?_
  cases found with
  | none => exact .pure _
  | some cev =>
    have htail : ∀ eventReady, OnlyPosts (do
        checkEventReady env eventReady iov
        pure ConnStatus.SUCCESS) := fun eventReady =>
      (onlyPosts_checkEventReady env _ _).bind fun _ => .pure _
    refine OnlyPosts.getCb.bind fun cbp => (OnlyPosts.assert _ _).bind fun _ =>
      (OnlyPosts.modifyCb _).bind fun _ => (OnlyPosts.modifyEvent _ _).bind fun _ =>
      .ite (fun _ => ?_) fun _ => .ite (fun _ => ?_) fun _ => ?_
    · exact (onlyPosts_recvPrepareRspAttach env _).bind fun _ => (OnlyPosts.pure _).bind
        fun _ => htail _
    · exact (onlyPosts_recvPrepareFileIov env).bind fun _ => (OnlyPosts.pure _).bind
        fun _ => htail _
    · exact (OnlyPosts.pure _).bind fun _ => htail _

theorem onlyPosts_recvHeaderCb (iov : IoVec) : OnlyPosts (recvHeaderCb env iov) :=
  (OnlyPosts.assert _ _).bind fun _ => (OnlyPosts.modifyCb _).bind fun _ => .ite
    (fun _ => (OnlyPosts.assert _ _).bind fun _ => (OnlyPosts.setNextRecv _).bind fun _ =>
      (OnlyPosts.repostIoVec env _ _).bind fun _ => .pure _)
    fun _ => OnlyPosts.getCb.bind fun _ => (onlyPosts_prepare2Drain env _ _).bind fun _ => .pure _

theorem onlyPosts_recvMessageCb (iov : IoVec) : OnlyPosts (recvMessageCb env iov) := by
  have hdrain : ∀ rc : ConnStatus, ∀ n, OnlyPosts (do
      if rc ≠ .SUCCESS then prepare2Drain env iov n
      pure rc) := fun rc n =>
    .ite (fun _ => (onlyPosts_prepare2Drain env _ _).bind fun _ => .pure _) fun _ => .pure _
  unfold recvMessageCb
  split
  · exact ((OnlyPosts.newChar env).bind fun _ => .call _).bind fun _ => OnlyPosts.getCb.bind
      fun _ => (onlyPosts_prepare2Drain env _ _).bind fun _ => .pure _
  · exact (onlyPosts_recvReqMsg env _ _).bind fun rc => OnlyPosts.getCb.bind fun _ => hdrain rc _
  · exact (onlyPosts_recvRspMsg env _ _ _).bind fun rc => OnlyPosts.getCb.bind fun _ => hdrain rc _
  · exact OnlyPosts.getCb.bind fun _ => (onlyPosts_prepare2Drain env _ _).bind fun _ => .pure _

theorem onlyPosts_recvAttachCb (iov : IoVec) : OnlyPosts (recvAttachCb env iov) :=
  (OnlyPosts.modifyCb _).bind fun _ => OnlyPosts.getCb.bind fun _ => .ite
    (fun _ => OnlyPosts.getCb.bind fun _ => .ite
      (fun _ => (onlyPosts_checkEventReady env _ _).bind fun _ => .pure _)
      fun _ => (onlyPosts_recvPrepareFileIov env).bind fun _ =>
        (onlyPosts_checkEventReady env _ _).bind fun _ => .pure _) fun _ => .pure _

theorem onlyPosts_recvFile (iov : IoVec) : OnlyPosts (recvFile env iov) := by
  have hname : ∀ cbp first, OnlyPosts (recvFileName env cbp first) := by
    intro cbp first
    refine .ite (fun _ => ?_) fun _ => .pure _
    split
    · exact .throw _
    · refine OnlyPosts.bind (.of_keeps fun w => ?_) fun _ => (OnlyPosts.modifyEvent _ _).bind
        fun _ => .pure _
      simp [generateRcvFileName]
  have hwrite : ∀ name data append, OnlyPosts (writeToFile env name data append) := by
    intro name data append
    refine .of_keeps fun w => ?_
    simp only [writeToFile, ends_bind, ends_get]
    cases env.disk w.writes <;> exact rfl
  refine OnlyPosts.getCb.bind fun cbp => (hname _ _).bind fun name => (hwrite _ _ _).bind fun ok =>
    .ite (fun _ => (OnlyPosts.modifyCb _).bind fun _ => .ite (fun _ => ?_) fun _ => ?_)
    fun _ => .pure _
  · exact (onlyPosts_checkEventReady env _ _).bind fun _ => .pure _
  · exact (OnlyPosts.pure _).bind fun _ => .pure _

theorem onlyPosts_recvDrain (iov : IoVec) : OnlyPosts (recvDrain env iov) :=
  (OnlyPosts.modifyCb _).bind fun _ => OnlyPosts.getCb.bind fun _ => .ite
    (fun _ => onlyPosts_recvErrCb.bind fun _ => (OnlyPosts.setNextRecv _).bind fun _ =>
      (OnlyPosts.repostIoVec env _ _).bind fun _ => .pure _)
    fun _ => .ite (fun _ => (OnlyPosts.postRecv rfl).bind fun _ => .pure _)
      fun _ => (OnlyPosts.postRecv rfl).bind fun _ => .pure _

/-- It takes nothing from it and changes nothing there, and puts fresh vectors at its end. -/
theorem onlyPosts_recvCallback (iov : IoVec) (state : VecState) :
    OnlyPosts (recvCallback env iov state) := by
  cases state with
  | CLEANUP | ERROR => exact onlyPosts_recvErrCb
  | DONE =>
    have hnext : OnlyPosts getNextRecv := .of_keeps fun w => by simp
    refine hnext.bind fun nr => ?_
    cases nr with
    | HEADER => exact onlyPosts_recvHeaderCb env iov
    | MESSAGE => exact onlyPosts_recvMessageCb env iov
    | ATTACHMENT => exact onlyPosts_recvAttachCb env iov
    | ATTACHFILE => exact onlyPosts_recvFile env iov
    | DRAIN => exact onlyPosts_recvDrain env iov

end Callbacks

/-- A step of the connection takes the front vector and only posts. -/
theorem deliver_posts {env : Env} {w t : World} {data : List UInt8}
    (h : (deliver env).step w data = some t) : ∃ v vs, w.mRecvQ = v :: w.mRecvQ.tail
      ∧ data.length = v.size ∧ t.mRecvQ = w.mRecvQ.tail ++ vs ∧ ∀ v ∈ vs, v.xferred = 0 := by
  obtain ⟨v, q, rc, hq, hd, hx⟩ := (deliver_eq_some env).1 h
  obtain ⟨vs, ht, hvs⟩ := (onlyPosts_recvCallback env _ _ _).ok hx
  exact ⟨v, vs, by rw [hq, List.tail_cons], hd, by rw [ht, hq, List.tail_cons], hvs⟩

/-! ## The callback of a connection -/

/-- The vector as it is posted. -/
def IoVec.fresh (v : IoVec) : FreshRecv Unit where
  toIoVec := v.renew v.size
  param := ()
  fresh := v.renew_xferred v.size

/-- The connection when its callback has been given each of the vectors. -/
def World.after (env : Env) (w : World) (completed : List (RecvVec Unit)) : Option World :=
  (deliver env).run w (completed.map RecvVec.contents)

/-- What the callback of the last of the vectors posts: the queue as it is behind it, without the
vectors that were there before. -/
def World.posting (env : Env) (w : World) : Posting Unit := fun completed =>
  match w.after env completed.dropLast, w.after env completed with
  | some t, some t' => (t'.mRecvQ.drop t.mRecvQ.tail.length).map IoVec.fresh
  | _, _ => []

/-- The receiver with the vectors of the connection before a stream. -/
def World.receiver (w : World) (stream : List UInt8) : Receiver Unit :=
  .start (w.mRecvQ.map IoVec.fresh) stream

section Alignment

variable {env : Env} {w : World} {f g : Filling Unit}

theorem after_snoc (completed : List (RecvVec Unit)) (v : RecvVec Unit) :
    w.after env (completed ++ [v])
      = (w.after env completed).bind fun t => (deliver env).step t v.contents := by
  rw [World.after, List.map_append, Machine.run_append]
  simp [World.after]

/-- The vectors still to be filled are those on the queue of the connection. -/
def Aligned (env : Env) (w : World) (f : Filling Unit) : Prop :=
  ∀ t, w.after env f.completed = some t →
    t.mRecvQ.map (IoVec.fill · []) = (f.current.toList ++ f.queue).map fun v => v.toIoVec.fill []

theorem aligned_step (hf : Aligned env w f) (h : (filling (w.posting env)).step f () = some g) :
    Aligned env w g := by
  simp only [filling, Filling.step] at h
  rcases hcur : f.current with _ | v <;> simp only [hcur] at h
  · rcases hq : f.queue with _ | ⟨v, q⟩ <;> simp only [hq] at h <;> cases h
    intro t ht
    simpa [hcur, hq] using hf t ht
  · by_cases hd : v.done = true
    · rw [if_pos hd, Option.some.injEq] at h
      subst h
      intro t' ht'
      have ht := ht'
      simp only [after_snoc, Option.bind_eq_some_iff] at ht
      obtain ⟨t, ht, hstep⟩ := ht
      obtain ⟨u, vs, hqueue, -, hpost, hvs⟩ := deliver_posts hstep
      have hline := hf t ht
      rw [hcur, hqueue] at hline
      have htail : t.mRecvQ.tail.map (IoVec.fill · [])
          = f.queue.map fun v => v.toIoVec.fill [] := by
        simpa using (List.cons.inj hline).2
      have hnew : w.posting env (f.completed ++ [v]) = vs.map IoVec.fresh := by
        simp only [World.posting, List.dropLast_concat, ht, ht', hpost, List.drop_left]
      simp only [hnew, Receiver.post, hpost, Option.toList_none, List.nil_append, List.map_append,
        htail, List.map_map]
      exact congrArg _ (List.map_congr_left fun u _ => rfl)
    · rw [if_neg hd] at h
      rcases hun : f.unread with _ | ⟨b, bs⟩ <;> simp only [hun] at h <;> cases h
      intro t ht
      rw [hf t ht, hcur]
      rfl

theorem aligned_start (w : World) (stream : List UInt8) :
    Aligned env w (w.receiver stream).filling := by
  rintro t ht
  obtain rfl : w = t := Option.some.inj ht
  simp [World.receiver, Receiver.start, Receiver.filling, Receiver.post, Function.comp_def,
    IoVec.fresh, IoVec.fill]

/-! ## The pieces of the stream -/

/-- The vectors completed hold the first of the pieces. -/
structure Piecewise (env : Env) (w : World) (pieces : List (List UInt8)) (f : Filling Unit) :
    Prop where
  aligned : Aligned env w f
  room : ∀ v, f.current = some v → v.xferred ≤ v.size
  pieces : f.completed.map RecvVec.contents <+: pieces

variable {pieces : List (List UInt8)} {rest : List UInt8} {w' : World}

theorem size_of_fill {u v : IoVec} (h : u.fill [] = v.fill []) : u.size = v.size := by
  simpa using congrArg IoVec.size h

/-- Behind some of the pieces, the connection waits for the next with the vector that is current, or
with the first of the queue. -/
theorem Piecewise.waits {p : List UInt8} {todo : List (List UInt8)}
    (hf : Piecewise env w pieces f) (hrun : (deliver env).run w pieces = some w')
    (hsplit : f.completed.map RecvVec.contents ++ p :: todo = pieces) :
    ∃ v, (f.current.toList ++ f.queue).head? = some v ∧ v.size = p.length := by
  rw [← hsplit, Machine.run_append, Option.bind_eq_some_iff] at hrun
  obtain ⟨t, ht, hrun⟩ := hrun
  obtain ⟨t', hstep, -⟩ := Option.bind_eq_some_iff.1 hrun
  obtain ⟨u, vs, hq, hp, -⟩ := deliver_posts hstep
  have hline := hf.aligned t ht
  rw [hq] at hline
  rcases hl : f.current.toList ++ f.queue with _ | ⟨v, q⟩ <;> rw [hl] at hline
  · cases hline
  · have hsize := size_of_fill (List.cons.inj hline).1
    exact ⟨v, rfl, by rw [hp]; exact hsize.symm⟩

/-- The stream behind what is completed. -/
theorem Filling.Sound.behind {stream : List UInt8} {v : RecvVec Unit} {todo : List (List UInt8)}
    (hf : f.Sound stream) (hcur : f.current = some v)
    (hsplit : f.completed.map RecvVec.contents ++ todo = pieces)
    (hstream : stream = pieces.flatten ++ rest) :
    v.contents ++ f.unread = todo.flatten ++ rest := by
  have h := hf.split
  rw [hstream, ← hsplit, Filling.received, hcur, Option.toList_some, List.flatMap_append,
    List.flatMap_singleton, List.flatten_append, List.flatMap_def, List.append_assoc,
    List.append_assoc] at h
  exact List.append_cancel_left h

theorem piecewise_step {stream : List UInt8} (hf : Piecewise env w pieces f)
    (hsound : f.Sound stream) (hrun : (deliver env).run w pieces = some w')
    (hrest : ∀ v ∈ w'.mRecvQ.head?, rest.length < v.size)
    (hstream : stream = pieces.flatten ++ rest)
    (h : (filling (w.posting env)).step f () = some g) : Piecewise env w pieces g := by
  refine ⟨aligned_step hf.aligned h, ?_, ?_⟩ <;> simp only [filling, Filling.step] at h <;>
    rcases hcur : f.current with _ | v <;> simp only [hcur] at h
  · rcases hq : f.queue with _ | ⟨v, q⟩ <;> simp only [hq] at h <;> cases h
    intro u hu
    obtain rfl : v = u := Option.some.inj hu
    rw [hsound.queue v (by simp [hq])]
    exact Nat.zero_le _
  · have hroom := hf.room v hcur
    by_cases hd : v.done = true
    · rw [if_pos hd, Option.some.injEq] at h
      subst h
      exact fun u hu => (Option.some_ne_none u hu.symm).elim
    · rw [if_neg hd] at h
      rcases hun : f.unread with _ | ⟨b, bs⟩ <;> simp only [hun] at h <;> cases h
      intro u hu
      obtain rfl : v.got [b] = u := Option.some.inj hu
      have hne : v.xferred ≠ v.size := by simpa [IoVec.done] using hd
      show v.xferred + 1 ≤ v.size
      omega
  · rcases hq : f.queue with _ | ⟨v, q⟩ <;> simp only [hq] at h <;> cases h
    exact hf.pieces
  · by_cases hd : v.done = true
    · rw [if_pos hd, Option.some.injEq] at h
      subst h
      have hfull : v.contents.length = v.size := by
        rw [hsound.current v hcur]
        simpa [IoVec.done] using hd
      obtain ⟨todo, hsplit⟩ := hf.pieces
      have hbehind := hsound.behind hcur hsplit hstream
      rcases todo with _ | ⟨p, todo⟩
      · -- the connection waits for more than is left of the stream
        rw [List.append_nil] at hsplit
        have hline := hf.aligned w' (by rw [World.after, hsplit, hrun])
        rw [hcur] at hline
        rcases hq : w'.mRecvQ with _ | ⟨u, q⟩ <;> rw [hq] at hline hrest
        · cases hline
        · have hsize := size_of_fill (List.cons.inj hline).1
          have hlt := hrest u rfl
          have hlen := congrArg List.length hbehind
          simp only [List.length_append, List.flatten_nil, List.nil_append] at hlen
          omega
      · obtain ⟨u, hu, hsize⟩ := hf.waits hrun hsplit
        obtain rfl : v = u := by simpa [hcur] using hu
        rw [List.flatten_cons, List.append_assoc] at hbehind
        have hpiece := (List.append_inj hbehind (by rw [hfull, hsize])).1
        exact ⟨todo, by simpa [hpiece] using hsplit⟩
    · rw [if_neg hd] at h
      rcases hun : f.unread with _ | ⟨b, bs⟩ <;> simp only [hun] at h <;> cases h
      exact hf.pieces

/-- What is waited for is not all there when the stream is used up. -/
theorem Piecewise.all {s : Receiver Unit} {stream : List UInt8}
    (hf : Piecewise env w pieces s.filling) (hsound : s.filling.Sound stream)
    (hrun : (deliver env).run w pieces = some w') (hstream : stream = pieces.flatten ++ rest)
    (hend : s.Exhausted) : s.completed.map RecvVec.contents = pieces := by
  obtain ⟨_ | ⟨p, todo⟩, hsplit⟩ := hf.pieces
  · rwa [List.append_nil] at hsplit
  · obtain ⟨v, hv, hsize⟩ := hf.waits hrun hsplit
    rcases hend with ⟨hcur, hq⟩ | ⟨hun, hpending⟩
    · simp [Receiver.filling, hcur, hq] at hv
    · obtain ⟨u, hu⟩ := Option.ne_none_iff_exists'.1 hpending
      obtain ⟨hcur, hd⟩ := Receiver.mCurRecvBlock_of_pending hu
      obtain rfl : u = v := by simpa [Receiver.filling, hcur] using hv
      have hroom := hf.room u hcur
      have hx := hsound.current u hcur
      have hlen := congrArg List.length (hsound.behind hcur hsplit hstream)
      simp only [Receiver.filling, hun, List.append_nil, List.flatten_cons, List.length_append]
        at hlen
      have hne : u.xferred ≠ u.size := by simpa [IoVec.done] using hd
      omega

end Alignment

/-- Where the connection takes the pieces from the front of the stream and what is behind them is
shorter than the vector it waits with then, the vectors completed are at any time the first of the
pieces, and all of them once the stream is used up. -/
theorem completed_pieces {env : Env} {w w' : World} {pieces : List (List UInt8)}
    {rest : List UInt8} (hrun : (deliver env).run w pieces = some w')
    (hrest : ∀ v ∈ w'.mRecvQ.head?, rest.length < v.size) {steps : List RecvStep}
    {s : Receiver Unit} (hr : (receiving (w.posting env)).run
      (w.receiver (pieces.flatten ++ rest)) steps = some s) (hs : s.broken = false) :
    s.completed.map RecvVec.contents <+: pieces
      ∧ (s.Exhausted → s.completed.map RecvVec.contents = pieces) := by
  obtain ⟨ks, hks⟩ := filling_of_receiving hr hs
  have hstart : (w.receiver (pieces.flatten ++ rest)).filling.Sound (pieces.flatten ++ rest)
      ∧ Piecewise env w pieces (w.receiver (pieces.flatten ++ rest)).filling :=
    ⟨sound_start _ _, aligned_start w _, nofun, List.nil_prefix⟩
  obtain ⟨hsound, hpiece⟩ := (filling (w.posting env)).run_inv_of_step
    (I := fun f => f.Sound (pieces.flatten ++ rest) ∧ Piecewise env w pieces f)
    (fun f _ g hf h => ⟨hf.1.step h, piecewise_step hf.2 hf.1 hrun hrest rfl h⟩) ks hstart hks
  exact ⟨hpiece.pieces, hpiece.all hsound hrun rfl⟩

end Longda
