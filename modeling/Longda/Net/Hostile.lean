import Longda.Net.Serving

/-!
# Hostile lengths

What `recvData` does with the bytes that wait for a server's connection is what the callbacks they
bring about do (`progresses`). Where each of them is supplied (`Fed`) the connection goes on or is
removed. Where one is not, `bad_alloc` leaves a callback with the receive queue locked; `recvData`
catches it and calls `removeConn`, and `Conn::cleanup` fails on the lock its own thread holds.
`handles_iff` is the exact condition.
-/

namespace Longda

open Lib

variable {env : Env} {k : Kernel} {l : Link}

/-! ## What the received bytes bring about -/

/-- Every callback that the bytes bring about from `w` on is supplied. -/
def Fed (env : Env) (w : World) (bytes : List UInt8) : Prop :=
  ∀ datas data rest t, datas.flatten ++ data ++ rest = bytes → (deliver env).run w datas = some t →
    (∃ v q, t.mRecvQ = v :: q ∧ data.length = v.size) → Supplied env t data

theorem fed_of_nil {w : World} {bytes : List UInt8} (hq : w.mRecvQ = []) : Fed env w bytes := by
  rintro (_ | ⟨d, ds⟩) data rest t - hr ⟨v, q, hv, -⟩
  · simp only [Machine.run_nil, Option.some.injEq] at hr
    rw [← hr, hq] at hv
    cases hv
  · simp [deliver, hq] at hr

/-- A vector that is not filled is not given to its callback. -/
theorem fed_of_short {w : World} {v : IoVec} {q : List IoVec} {bytes : List UInt8}
    (hq : w.mRecvQ = v :: q) (hb : bytes.length < v.size) : Fed env w bytes := by
  rintro (_ | ⟨d, ds⟩) data rest t h hr ⟨u, p, hu, hd⟩
  · simp only [Machine.run_nil, Option.some.injEq] at hr
    rw [← hr, hq, List.cons.injEq] at hu
    have := congrArg List.length h
    simp only [List.flatten_nil, List.nil_append, List.length_append, hd, ← hu.1] at this
    omega
  · have hlen : d.length ≠ v.size := by
      have := congrArg List.length h
      simp only [List.flatten_cons, List.append_assoc, List.length_append] at this
      omega
    simp [deliver, hq, hlen] at hr

/-- The first vector that fills is supplied, and so are those behind it. -/
theorem fed_append_iff {w : World} {v : IoVec} {q : List IoVec} {data rest : List UInt8}
    (hq : w.mRecvQ = v :: q) (hd : data.length = v.size) :
    Fed env w (data ++ rest) ↔ Supplied env w data
      ∧ ∀ t, (deliver env).step w data = some t → Fed env t rest := by
  constructor
  · intro h
    refine ⟨h [] data rest w rfl rfl ⟨v, q, hq, hd⟩, fun t ht datas d r u hb hr hu => ?_⟩
    refine h (data :: datas) d r u ?_ ?_ hu
    · simp [← hb]
    · simp [ht, hr]
  · rintro ⟨hs, hrest⟩ (_ | ⟨d, ds⟩) data' rest' t h hr hu
    · simp only [Machine.run_nil, Option.some.injEq] at hr
      subst hr
      obtain ⟨u, p, hu, hd'⟩ := hu
      rw [hq, List.cons.injEq] at hu
      have hlen : data'.length = data.length := by rw [hd, hd', hu.1]
      rwa [(List.append_inj (by simpa using h) hlen).1]
    · rw [Machine.run_cons, Option.bind_eq_some_iff] at hr
      obtain ⟨s, hstep, hr⟩ := hr
      obtain ⟨u, p, rc, hu, hd', -⟩ := (deliver_eq_some env).1 hstep
      rw [hq, List.cons.injEq] at hu
      have hlen : d.length = data.length := by rw [hd, hd', hu.1]
      obtain ⟨rfl, hb⟩ := List.append_inj (by simpa using h) hlen
      exact hrest s hstep ds data' rest' t (by simpa using hb) hr ‹_›

/-! ## One vector -/

/-- The loop of `recvvecProgress` fills the vector from what waits in the socket. -/
theorem recvLoop_ends (turns : ℕ) {v : IoVec} {got : List UInt8} {nr : Received}
    (hf : l.held .mMutex = false) (hc : l.mCleaning = false) (hg : got.length ≤ v.size)
    (ht : v.size - got.length ≤ turns) :
    Ends (recvLoop k turns (v.fill got) nr) l
      (fun p t => ∃ data rest n, l.unread = data ++ rest ∧ p.1 = v.fill (got ++ data)
        ∧ t = { l with unread := rest, recvs := n }
        ∧ ((got ++ data).length = v.size
          ∨ (got ++ data).length < v.size ∧ rest = [] ∧ p.2 = .none k.atEnd))
      fun _ _ => False := by
  induction turns generalizing l got nr with
  | zero => exact ⟨[], l.unread, l.recvs, rfl, by simp, rfl, .inl (by simp; omega)⟩
  | succ turns ih =>
    simp only [recvLoop]
    by_cases hdone : got.length = v.size
    · have hd : (v.fill got).done = true := by simp [IoVec.done, IoVec.fill, hdone]
      simp only [hd, if_true, ends_pure]
      exact ⟨[], l.unread, l.recvs, rfl, by simp, rfl, .inl (by simpa using hdone)⟩
    · have hd : (v.fill got).done = false := by simp [IoVec.done, IoVec.fill, hdone]
      have hrecv : (!l.mCleaning) = true := by rw [hc]; rfl
      simp only [hd, Bool.false_eq_true, if_false, ends_bind, ends_lock, hf, ends_get, ends_unlock,
        Function.update_self, if_true, update_free hf, hrecv, sockRecv, ends_ite, ends_pure,
        ends_set]
      split_ifs with hu
      · refine ⟨[], [], l.recvs, by simp [hu], by simp, by rw [← hu], .inr ⟨?_, rfl, trivial⟩⟩
        rw [List.append_nil]
        omega
      · -- at least one byte comes
        have hremain : (v.fill got).remain = v.size - got.length := rfl
        rw [hremain]
        obtain ⟨n, hn⟩ : ∃ n, n = min (k.chunk l.recvs + 1) (v.size - got.length) := ⟨_, rfl⟩
        rw [← hn]
        have hpos := List.length_pos_iff.2 hu
        have htake : (l.unread.take n).length = min n l.unread.length := List.length_take
        have hfill : (v.fill got).receive (l.unread.take n) = v.fill (got ++ l.unread.take n) := by
          simp [IoVec.receive, IoVec.fill]
        rw [hfill]
        refine (ih (by exact hf) (by exact hc) ?_ ?_).mono_ok ?_
        · rw [List.length_append]
          omega
        · rw [List.length_append]
          omega
        · rintro p t ⟨data, rest, m, hrest, hp, rfl, hend⟩
          refine ⟨l.unread.take n ++ data, rest, m, ?_, by rw [hp, List.append_assoc], rfl, ?_⟩
          · rw [List.append_assoc, ← hrest, List.take_append_drop]
          · rwa [List.append_assoc] at hend

theorem posted_recvQ {v : IoVec} (hv : l.mCurRecvBlock = some v) :
    l.posted.mRecvQ = v.fill [] :: l.mRecvQ := by
  simp [Link.posted, hv]

/-- The callback of the vector in progress, once the vector is full. -/
theorem callback_ends {v : IoVec} {data : List UInt8} (hl : Serving env l)
    (hv : l.mCurRecvBlock = some v) (hd : data.length = v.size) :
    Ends (recvCallback env (v.fill data) .DONE) { l.posted with mRecvQ := l.mRecvQ }
      (fun _ w => Supplied env l.posted data ∧ (deliver env).step l.posted data = some w
        ∧ Consistent env (fun _ => True) w ∧ Stays l.posted w
        ∧ (v.size = 0 → w.toHeader < l.posted.toHeader))
      fun f w => ¬ Supplied env l.posted data ∧ (f = .badAlloc ∨ ∃ d, f = .assertFailed d)
        ∧ Stays l.posted w := by
  have hq := posted_recvQ hv
  have hd' : data.length = (v.fill []).size := hd
  have hsup := recvCallback_supplied hl.consistent hq hd' hl.eventMap
  rw [IoVec.fill_fill] at hsup
  by_cases hs : Supplied env l.posted data
  · have hcons : Ends (recvCallback env ((v.fill []).fill data) .DONE)
        { l.posted with mRecvQ := l.mRecvQ } _ _ :=
      recvCallback_consistent (A := fun _ => True) trivial hl.consistent hq
        (fun hn hr => hs.2 hn hr _ (by simp [hq])) fun _ _ _ => trivial
    have hnear : Ends (recvCallback env (v.fill data) .DONE) { l.posted with mRecvQ := l.mRecvQ }
        (fun _ t => v.size = 0 → t.toHeader < l.posted.toHeader) fun _ _ => True := by
      by_cases hz : v.size = 0
      · exact (recvCallback_nearer hl.consistent hq hz).mono_ok fun _ _ h _ => h
      · exact ends_true.mono_ok fun _ _ _ h => absurd h hz
    refine (((Ends.self _ _).and hsup).and (hcons.and hnear)).mono ?_ ?_
    · rintro rc w ⟨⟨hx, -, hst⟩, hcw, hnw⟩
      exact ⟨hs, (deliver_eq_some env).2 ⟨_, _, rc, hq, hd', hx⟩, hcw, hst, hnw⟩
    · rintro f w ⟨⟨-, hf, hns, hst⟩, -⟩
      exact absurd hs hns
  · refine hsup.mono ?_ ?_
    · exact fun _ _ h => absurd h.1 hs
    · exact fun f w h => ⟨h.2.1, h.1, h.2.2⟩

/-! ## One turn of the loop -/

/-- The bytes in the socket fill the vector, and its callback leaves the world `w`. -/
structure Fills (env : Env) (l : Link) (v : IoVec) (data rest : List UInt8) (w : World) : Prop where
  split : v.base ++ l.unread = data ++ rest
  full : data.length = v.size
  supplied : Supplied env l.posted data
  step : (deliver env).step l.posted data = some w
  consistent : Consistent env (fun _ => True) w
  stays : Stays l.posted w
  nearer : v.size = 0 → w.toHeader < l.posted.toHeader

/-- The bytes in the socket fill the vector, and its callback does not return. -/
def Starves (env : Env) (l : Link) (v : IoVec) (f : Fault) : Prop :=
  (f = .badAlloc ∨ ∃ d, f = .assertFailed d) ∧ ∃ data rest, v.base ++ l.unread = data ++ rest
    ∧ data.length = v.size ∧ ¬ Supplied env l.posted data

theorem recvvecProgress_ends {v : IoVec} (hl : Serving env l) (hv : l.mCurRecvBlock = some v) :
    Ends (recvvecProgress env k)
      { l with held := Function.update l.held .mRecvMutex true, mReadyRecv := true }
      (fun rc t =>
        (rc = .CONN_ERR_UNAVAIL ∧ (v.base ++ l.unread).length < v.size ∧ ∃ n, t = { l with
          held := Function.update l.held .mRecvMutex true, mReadyRecv := false, unread := []
          recvs := n, mCurRecvBlock := some (v.fill (v.base ++ l.unread)) }) ∨
        (rc = .CONN_ERR_BROKEN ∧ (v.base ++ l.unread).length < v.size ∧ ∃ n w, Stays l.posted w
          ∧ t = { l with toWorld := w, mReadyRecv := true, unread := [], recvs := n
                         mCurRecvBlock := none }) ∨
        (rc = .SUCCESS ∧ ∃ data rest w n, Fills env l v data rest w
          ∧ t = { l with toWorld := w, mReadyRecv := true, unread := rest, recvs := n
                         mCurRecvBlock := none }))
      fun f t => t.held .mRecvMutex = true ∧ Starves env l v f := by
  obtain ⟨hfill, hbase⟩ := hl.progress v hv
  have hfree : Function.update l.held MutexId.mRecvMutex true .mMutex = false := by
    rw [Function.update_of_ne (by decide)]
    exact hl.free _
  have hlen : v.base.length ≤ v.size := by
    rcases hbase with h | h
    · simp [h]
    · exact h.le
  have hloop : Ends (recvLoop k v.remain (v.fill v.base) (.none .closed))
      { l with held := Function.update l.held .mRecvMutex true, mReadyRecv := true } _ _ :=
    recvLoop_ends v.remain hfree hl.cleaning hlen (by rw [hfill]; exact le_rfl)
  rw [← hfill] at hloop
  simp only [hv] at hloop
  simp only [recvvecProgress, hv, ends_bind, ends_get, if_true]
  refine hloop.mono ?_ fun _ _ => False.elim
  rintro ⟨v', nr⟩ t ⟨data, rest, n, hsplit, hp, rfl, hend⟩
  simp only at hp hend hsplit
  subst hp
  rw [ends_modify]
  rcases hend with hfull | ⟨hshort, rfl, hnr⟩
  · have hdone : (v.fill (v.base ++ data)).done = true := by
      simp only [IoVec.done, IoVec.fill, hfull, beq_self_eq_true]
    simp only [hdone, if_true, completeVec, ends_bind, ends_modify, ends_inWorld, ends_pure]
    refine (callback_ends hl hv hfull).mono ?_ ?_
    · rintro rc w ⟨hs, hstep, hc, hst, hn⟩
      refine .inr (.inr ⟨trivial, v.base ++ data, rest, w, n,
        ⟨?_, hfull, hs, hstep, hc, hst, hn⟩, rfl⟩)
      rw [hsplit, List.append_assoc]
    · rintro f w ⟨hs, hf, hst⟩
      refine ⟨?_, hf, v.base ++ data, rest, ?_, hfull, hs⟩
      · rw [hst.held]
        simp [Link.posted]
      · rw [hsplit, List.append_assoc]
  · rw [List.append_nil] at hsplit
    rw [← hsplit] at hshort ⊢
    have hdone : (v.fill (v.base ++ l.unread)).done = false := by
      simp only [IoVec.done, IoVec.fill, beq_eq_false_iff_ne]
      omega
    simp only [hdone, Bool.false_eq_true, if_false, hnr]
    have herr : Ends (completeVec env (v.fill (v.base ++ l.unread)) .ERROR .CONN_ERR_BROKEN)
        { l with
          held := Function.update l.held .mRecvMutex true, mReadyRecv := true, unread := []
          recvs := n, mCurRecvBlock := some (v.fill (v.base ++ l.unread)) }
        (fun rc t => rc = .CONN_ERR_BROKEN ∧ ∃ w, Stays l.posted w ∧ t = { l with
          toWorld := w, mReadyRecv := true, unread := [], recvs := n, mCurRecvBlock := none })
        fun _ _ => False := by
      simp only [completeVec, ends_bind, ends_modify, ends_inWorld, ends_pure]
      refine recvErrCb_keeps.mono_ok fun _ w hw => ⟨trivial, w, hw.toStays.after ?_, rfl⟩
      refine ⟨rfl, rfl, rfl, id, fun _ => id, fun u hu => .inl ?_⟩
      rw [posted_recvQ hv]
      exact .tail _ hu
    cases k.atEnd with
    | again =>
      simp only [ends_bind, ends_modify, ends_pure]
      exact .inl ⟨trivial, hshort, n, rfl⟩
    | closed =>
      refine herr.mono ?_ fun _ _ => False.elim
      rintro rc t ⟨rfl, w, hw, rfl⟩
      exact .inr (.inl ⟨rfl, hshort, n, w, hw, rfl⟩)
    | failed =>
      refine herr.mono ?_ fun _ _ => False.elim
      rintro rc t ⟨rfl, w, hw, rfl⟩
      exact .inr (.inl ⟨rfl, hshort, n, w, hw, rfl⟩)

/-- Where the loop of `recvProgress` is left: on a connection to be removed or one to go on with. -/
def Rests (env : Env) (l : Link) (rc : ConnStatus) (t : Link) : Prop :=
  Attached t ∧ t.mRefCount = l.mRefCount ∧ (rc = .CONN_ERR_BROKEN ∨ Serving env t)

/-- The loop goes on with the next vector, on the connection the callback left. -/
structure GoesOn (env : Env) (l t : Link) (w : World) (rest : List UInt8) : Prop where
  serving : Serving env t
  current : ∃ v, t.mCurRecvBlock = some v
  posted : t.posted = w
  got : t.got = []
  unread : t.unread = rest
  refCount : t.mRefCount = l.mRefCount

/-- What a callback leaves is attached once the receive queue is unlocked. -/
theorem Attached.of_stays {w : World} (hl : Attached l) (hw : Stays l.posted w) (t : Link)
    (ht : t = { l with
      toWorld := { w with mRecvQ := t.mRecvQ, held := Function.update w.held .mRecvMutex false }
      mCurRecvBlock := t.mCurRecvBlock, mReadyRecv := t.mReadyRecv, unread := t.unread
      recvs := t.recvs }) : Attached t := by
  have hheld : Function.update w.held MutexId.mRecvMutex false = l.held := by
    rw [hw.held]
    exact update_free (hl.free _)
  rw [hheld] at ht
  rw [ht]
  exact
    { free := hl.free
      inMap := hl.inMap
      deleted := hl.deleted
      cleaning := hw.cleaning.trans hl.cleaning
      refCount := by rw [show _ = l.mRefCount from hw.refCount]; exact hl.refCount
      eventMap := hw.eventMap hl.eventMap
      answers := fun v hv cbp hc =>
        (hl.answers v hv cbp hc).imp fun c h => ⟨h.1, hw.serverGen c h.2⟩
      answersCur := fun v hv cbp hc =>
        (hl.answersCur v hv cbp hc).imp fun c h => ⟨h.1, hw.serverGen c h.2⟩ }

theorem recvTurn_ends {v : IoVec} (hl : Serving env l) (hv : l.mCurRecvBlock = some v) :
    Ends (recvTurn env k true) l
      (fun r t =>
        (∃ rc, r = some rc ∧ (v.base ++ l.unread).length < v.size ∧ Rests env l rc t) ∨
        ∃ data rest w, Fills env l v data rest w ∧
          (r = none ∧ GoesOn env l t w rest ∨ w.mRecvQ = [] ∧ ∃ rc, r = some rc ∧ Rests env l rc t))
      fun f t => t.held .mRecvMutex = true ∧ Starves env l v f := by
  simp only [recvTurn, ends_bind, ends_lock, hl.free, Bool.false_eq_true, if_false, ends_get,
    Bool.or_true, if_true, ends_modify]
  refine (recvvecProgress_ends hl hv).mono_ok ?_
  rintro rc t
    (⟨rfl, hshort, n, rfl⟩ | ⟨rfl, hshort, n, w, hw, rfl⟩ | ⟨rfl, data, rest, w, n, hf, rfl⟩)
  · have hne : (v.base ++ l.unread).length < v.size := hshort
    simp only [reduceCtorEq, if_false, if_true, ends_bind, ends_unlock, Function.update_self,
      ends_map, progressStatus, ends_get, ends_pure, Bool.false_and, Bool.false_eq_true,
      update_free (hl.free _)]
    refine .inl ⟨.SUCCESS, rfl, hshort, ?_, rfl, .inr ?_⟩
    · exact { hl.toAttached with }
    · refine { hl with progress := ?_, consistent := ?_ }
      · rintro u hu
        obtain rfl := Option.some.inj hu
        exact ⟨rfl, .inr hshort⟩
      · have := hl.consistent
        simp only [Link.posted, hv] at this
        exact this
  · have hheld : w.held .mRecvMutex = true := by
      rw [hw.held]
      simp [Link.posted]
    simp only [if_true, ends_bind, ends_unlock, hheld, ends_pure]
    refine .inl ⟨_, rfl, hshort, ?_, hw.refCount, .inl rfl⟩
    exact hl.toAttached.of_stays hw _ rfl
  · have hheld : w.held .mRecvMutex = true := by
      rw [hf.stays.held]
      simp [Link.posted]
    simp only [reduceCtorEq, if_false, ends_bind, ends_get]
    have hfresh : ∀ u ∈ w.mRecvQ, u.fill [] = u := by
      intro u hu
      rcases hf.stays.posted u hu with h | h
      · rw [posted_recvQ hv] at h
        rcases List.mem_cons.1 h with rfl | h
        · rfl
        · exact hl.fresh u h
      · exact h
    cases hq : w.mRecvQ with
    | nil =>
      simp only [ends_bind, ends_unlock, hheld, if_true, ends_map, progressStatus, ends_get,
        ends_pure, Option.isSome_none, Bool.and_false, Bool.false_eq_true, if_false]
      have hatt := hl.toAttached.of_stays hf.stays { l with
        toWorld := { w with mRecvQ := w.mRecvQ, held := Function.update w.held .mRecvMutex false }
        mCurRecvBlock := none, mReadyRecv := true, unread := rest, recvs := n } rfl
      refine .inr ⟨data, rest, w, hf, .inr ⟨hq, .SUCCESS, rfl, hatt, hf.stays.refCount, .inr ?_⟩⟩
      refine { hatt with progress := fun _ h => (by cases h), fresh := hfresh, consistent := ?_ }
      simp only [Link.posted, update_held hheld]
      exact hf.consistent
    | cons u q =>
      have hu : u.fill [] = u := hfresh u (by simp [hq])
      simp only [ends_bind, ends_inWorld, ends_ASSERT, Option.isNone_none, if_true, ends_modify,
        ends_unlock, hheld, ends_pure]
      have hatt := hl.toAttached.of_stays hf.stays { l with
        toWorld := { w with mRecvQ := q, held := Function.update w.held .mRecvMutex false }
        mCurRecvBlock := some u, mReadyRecv := true, unread := rest, recvs := n } rfl
      have hbase : u.base = [] := by rw [← hu]; rfl
      have hposted : Link.posted { l with
          toWorld := { w with mRecvQ := q, held := Function.update w.held .mRecvMutex false }
          mCurRecvBlock := some u, mReadyRecv := true, unread := rest, recvs := n } = w := by
        simp [Link.posted, update_held hheld, hu, ← hq]
      refine .inr ⟨data, rest, w, hf, .inl ⟨trivial, ?_, ⟨u, rfl⟩, hposted, hbase, rfl,
        hf.stays.refCount⟩⟩
      refine { hatt with progress := ?_, fresh := ?_, consistent := ?_ }
      · rintro _ ⟨rfl⟩
        exact ⟨by rw [hbase, hu], .inl hbase⟩
      · exact fun x hx => hfresh x (by rw [hq]; exact .tail _ hx)
      · rw [hposted]
        exact hf.consistent

/-! ## The loop -/

/-- The loop of `recvProgress` is left where every callback was supplied, and thrown out of with the
receive queue locked where one was not. -/
def Progresses (env : Env) (k : Kernel) (l : Link) : Prop :=
  Settles (recvProgress env k true) l
    (fun r t => Fed env l.posted (l.got ++ l.unread) ∧ ∃ rc, r = some rc ∧ Rests env l rc t)
    fun f t => ¬ Fed env l.posted (l.got ++ l.unread)
      ∧ (f = .badAlloc ∨ ∃ d, f = .assertFailed d) ∧ t.held .mRecvMutex = true

/-- By induction on the bytes that wait, and among vectors of no bytes on the way to the next
header. -/
theorem progresses_of_current {v : IoVec} (hl : Serving env l) (hv : l.mCurRecvBlock = some v) :
    Progresses env k l := by
  obtain ⟨n, hn⟩ : ∃ n : ℕ ×ₗ (ℕ ×ₗ ℕ), n = toLex (l.unread.length, l.posted.toHeader) := ⟨_, rfl⟩
  induction n using WellFoundedLT.induction generalizing l v with
  | ind n ih =>
  have hgot : l.got = v.base := by simp [Link.got, hv]
  have hq := posted_recvQ hv
  unfold Progresses
  rw [hgot]
  refine settles_repeatM ((recvTurn_ends hl hv).mono ?_ ?_)
  · rintro r t (⟨rc, rfl, hshort, hrest⟩ | ⟨data, rest, w, hf, h⟩)
    · exact ⟨fed_of_short hq hshort, rc, rfl, hrest⟩
    · have hfed : Fed env l.posted (v.base ++ l.unread) ↔ Fed env w rest := by
        rw [hf.split, fed_append_iff hq hf.full]
        refine ⟨fun h => h.2 w hf.step, fun h => ⟨hf.supplied, fun u hu => ?_⟩⟩
        rw [hf.step, Option.some.injEq] at hu
        exact hu ▸ h
      rw [hfed]
      rcases h with ⟨rfl, hgo⟩ | ⟨hw, rc, rfl, hrest⟩
      · obtain ⟨u, hu⟩ := hgo.current
        have hrec := ih _ ?_ hgo.serving hu rfl
        · unfold Progresses at hrec
          rw [hgo.posted, hgo.got, hgo.unread, List.nil_append] at hrec
          refine hrec.mono ?_ fun _ _ h => h
          rintro r s ⟨h, rc, hr, hatt, href, hs⟩
          exact ⟨h, rc, hr, hatt, href.trans hgo.refCount, hs⟩
        · rw [hn, hgo.posted, hgo.unread, Prod.Lex.toLex_lt_toLex]
          have hlen := congrArg List.length hf.split
          simp only [List.length_append, hf.full] at hlen
          have hbase := (hl.progress v hv).2
          by_cases hz : v.size = 0
          · have : v.base.length = 0 := by
              rcases hbase with h | h
              · simp [h]
              · omega
            exact .inr ⟨by simp only; omega, hf.nearer hz⟩
          · refine .inl ?_
            simp only
            rcases hbase with h | h
            · rw [h, List.length_nil] at hlen
              omega
            · omega
      · exact ⟨fed_of_nil hw, rc, rfl, hrest⟩
  · rintro f t ⟨hheld, hfault, data, rest, hsplit, hfull, hns⟩
    refine ⟨fun h => hns ?_, hfault, hheld⟩
    rw [hsplit, fed_append_iff hq hfull] at h
    exact h.1

/-- Without a vector in progress a turn of the loop takes one from the queue. -/
theorem recvTurn_pops (hl : Serving env l) (hv : l.mCurRecvBlock = none) :
    Ends (recvTurn env k true) l
      (fun r t => (r = some .SUCCESS ∧ l.mRecvQ = [] ∧ t = { l with mReadyRecv := true }) ∨
        (r = none ∧ ∃ u q, l.mRecvQ = u :: q ∧ t = { l with
          mRecvQ := q, mCurRecvBlock := some u, mReadyRecv := true })) fun _ _ => False := by
  simp only [recvTurn, ends_bind, ends_lock, hl.free, Bool.false_eq_true, if_false, ends_get,
    Bool.or_true, if_true, ends_modify, recvvecProgress, hv, ends_pure, reduceCtorEq]
  cases hq : l.mRecvQ with
  | nil =>
    simp only [ends_bind, ends_unlock, Function.update_self, if_true, update_free (hl.free _),
      ends_map, progressStatus, ends_get, ends_pure, Option.isSome_none, Bool.and_false,
      Bool.false_eq_true, if_false]
    exact .inl ⟨trivial, trivial, by rw [← hq]⟩
  | cons u q =>
    simp only [ends_bind, ends_inWorld, ends_ASSERT, Option.isNone_none, if_true, ends_modify,
      ends_unlock, Function.update_self, update_free (hl.free _), ends_pure]
    exact .inr ⟨trivial, u, q, rfl, rfl⟩

theorem progresses (hl : Serving env l) : Progresses env k l := by
  rcases hv : l.mCurRecvBlock with _ | v
  · have hcons := hl.consistent
    have hgot : l.got = [] := by simp [Link.got, hv]
    refine settles_repeatM ((recvTurn_pops hl hv).mono ?_ fun _ _ => False.elim)
    rintro r t (⟨rfl, hq, rfl⟩ | ⟨rfl, u, q, hq, rfl⟩)
    · refine ⟨fed_of_nil (by simp [Link.posted, hv, hq]), .SUCCESS, rfl, ?_, rfl, .inr ?_⟩
      · exact { hl.toAttached with }
      · exact { hl with }
    · have hu : u.fill [] = u := hl.fresh u (by simp [hq])
      have hbase : u.base = [] := by rw [← hu]; rfl
      have hsame : Link.posted { l with
          mRecvQ := q, mCurRecvBlock := some u, mReadyRecv := true } = l.posted := by
        simp [Link.posted, hv, hq, hu]
      have hserv : Serving env { l with
          mRecvQ := q, mCurRecvBlock := some u, mReadyRecv := true } := by
        refine { hl with progress := ?_, fresh := ?_, consistent := ?_ }
        · rintro _ ⟨rfl⟩
          exact ⟨by rw [hbase, hu], .inl hbase⟩
        · exact fun x hx => hl.fresh x (by rw [hq]; exact .tail _ hx)
        · rw [hsame]
          exact hcons
      have hprog := progresses_of_current (k := k) hserv rfl
      unfold Progresses at hprog
      rw [hsame, show Link.got { l with
          mRecvQ := q, mCurRecvBlock := some u, mReadyRecv := true } = l.got by
        simp [Link.got, hv, hbase]] at hprog
      exact hprog
  · exact progresses_of_current hl hv

/-! ## The whole of `recvData` -/

/-- The connection has survived: it serves on, or `removeConn` has removed it; no lock is held. -/
def Survives (env : Env) (l : Link) : Prop := Serving env l ∨ Removed l

/-- `recvData` returns, with the connection still consistent or removed. -/
def Handles (env : Env) (k : Kernel) (l : Link) : Prop :=
  Settles (recvData env k) l (fun r t => r = some () ∧ Survives env t) fun _ _ => False

/-- The connection as its callbacks find it within `recvData`: with a reference more. -/
def Link.entered (l : Link) : World := { l.posted with mRefCount := l.mRefCount + 1 }

/-- A connection to go on with is given back, and one to remove is removed. -/
theorem recvDone_survives {rc : ConnStatus} {t : Link} (hl : 0 ≤ l.mRefCount)
    (h : Rests env { l with mRefCount := l.mRefCount + 1 } rc t) :
    Ends (recvDone env k (some rc)) t (fun r u => r = some () ∧ Survives env u)
      fun _ _ => False := by
  obtain ⟨hatt, href, hrest⟩ := h
  have hback : 0 ≤ t.mRefCount - 1 := by
    rw [show t.mRefCount = l.mRefCount + 1 from href]
    omega
  have hatt' : Attached { t with mRefCount := t.mRefCount - 1 } := { hatt with refCount := hback }
  have hrel : Ends (release env k.files) t _ _ := release_ends (hatt.free .mMutex) hatt.cleaning
  by_cases hb : rc = .CONN_ERR_BROKEN
  · subst hb
    simp only [recvDone, ends_bind, ends_inWorld, ends_mutexLock, ends_mutexUnlock, ends_pure]
    refine hrel.mono_ok ?_
    rintro _ _ rfl
    simp only [hatt.free, Bool.false_eq_true, if_false]
    refine hatt'.remove.mono_ok ?_
    rintro _ u ⟨hheld, hmap, hclean, hgone⟩
    simp only [hheld, Function.update_self, if_true, true_and]
    refine .inr { free := fun m => ?_, inMap := hmap, cleaning := hclean, gone := hgone }
    rw [update_free (hatt.free _)]
    exact hatt.free m
  · have hserv := hrest.resolve_left hb
    have hdone : recvDone env k (some rc) = (do release env k.files; pure (some ())) := by
      cases rc <;> first | rfl | exact absurd rfl hb
    rw [hdone, ends_bind]
    refine hrel.mono_ok ?_
    rintro _ _ rfl
    exact ⟨rfl, .inl { hatt' with
      progress := hserv.progress, fresh := hserv.fresh, consistent := hserv.consistent }⟩

/-- A thread that was thrown out of a callback holds the receive queue to the end. -/
theorem recvDone_held {t : Link} (h : t.held .mRecvMutex = true) :
    Ends (recvDone env k (some .CONN_ERR_BROKEN)) t (fun _ u => u.held .mRecvMutex = true)
      fun _ _ => True := by
  have hne : ∀ b (h : MutexId → Bool), Function.update h .mapMutex b .mRecvMutex = h .mRecvMutex :=
    fun b h => Function.update_of_ne (by decide) b h
  simp only [recvDone, ends_bind, ends_inWorld, ends_mutexLock, ends_mutexUnlock, ends_pure]
  refine (release_held h).mono_ok fun _ a ha => ?_
  split_ifs
  · refine (remove_held ha).mono_ok fun _ b hb => ?_
    split_ifs
    · rw [hne, hb]
    · exact hb
  · refine (remove_held (by exact (hne true _).trans ha)).mono_ok fun _ b hb => ?_
    split_ifs
    · rw [hne, hb]
    · exact hb

/-- `recvData` takes a reference, and what its callbacks throw it takes for a broken connection. -/
theorem recvData_ends_iff (hl : Attached l) (turns : ℕ) {Q : Option Unit → Link → Prop}
    {R : Fault → Link → Prop} :
    Ends (recvData env k turns) l Q R ↔
      Ends (recvProgress env k true turns) { l with mRefCount := l.mRefCount + 1 }
        (fun crc t => Ends (recvDone env k crc) t Q R)
        fun f t => if isThrown f then Ends (recvDone env k (some .CONN_ERR_BROKEN)) t Q R
          else R f t := by
  have hne : ∀ b (h : MutexId → Bool), Function.update h .mapMutex b .mMutex = h .mMutex :=
    fun b h => Function.update_of_ne (by decide) b h
  have hne' : ∀ b (h : MutexId → Bool), Function.update h .mMutex b .mapMutex = h .mapMutex :=
    fun b h => Function.update_of_ne (by decide) b h
  simp only [recvData, ends_bind, ends_inWorld, ends_mutexLock, hl.free, Bool.false_eq_true,
    if_false, find, acquire, ends_get, hl.inMap, if_true, ends_lock, hne, hne', ends_modify,
    ends_unlock, Function.update_self, ends_pure, ends_mutexUnlock, ends_catchAs]
  have hheld : Function.update (Function.update (Function.update (Function.update l.held
      .mapMutex true) .mMutex true) .mMutex false) .mapMutex false = l.held := by
    rw [update_free (by rw [hne, hl.free]), update_free (hl.free _)]
  rw [hheld]

theorem progresses_entered (hl : Serving env l) :
    Progresses env k { l with mRefCount := l.mRefCount + 1 } := by
  have hatt : Attached { l with mRefCount := l.mRefCount + 1 } :=
    { hl.toAttached with refCount := Int.add_nonneg hl.refCount Int.one_nonneg }
  exact progresses { hatt with
    progress := hl.progress, fresh := hl.fresh, consistent := hl.consistent }

theorem handles_of_fed (hl : Serving env l) (hf : Fed env l.entered (l.got ++ l.unread)) :
    Handles env k l := by
  obtain ⟨n, hn⟩ := progresses_entered (k := k) hl
  refine ⟨n, fun m hm => ?_⟩
  rw [recvData_ends_iff hl.toAttached]
  refine (hn m hm).mono ?_ ?_
  · rintro _ t ⟨-, rc, rfl, hrest⟩
    exact recvDone_survives hl.refCount hrest
  · exact fun f t h => absurd hf h.1

theorem Survives.free (h : Survives env l) (m : MutexId) : l.held m = false :=
  h.elim (fun h => h.free m) fun h => h.free m

/-- A callback that is not supplied leaves the receive queue locked, or the process aborted. -/
theorem not_handles_of_not_fed (hl : Serving env l)
    (hf : ¬ Fed env l.entered (l.got ++ l.unread)) : ¬ Handles env k l := by
  obtain ⟨n, hn⟩ := progresses_entered (k := k) hl
  have hbad : Settles (recvData env k) l (fun _ t => t.held .mRecvMutex = true)
      fun _ _ => True := by
    refine ⟨n, fun m hm => ?_⟩
    rw [recvData_ends_iff hl.toAttached]
    refine (hn m hm).mono ?_ ?_
    · exact fun _ _ h => absurd h.1 hf
    · rintro f t ⟨-, rfl | ⟨d, rfl⟩, hheld⟩
      · exact recvDone_held hheld
      · trivial
  intro h
  refine hbad.absurd h ?_ fun _ _ _ => id
  rintro _ t hheld ⟨-, hs⟩
  rw [hs.free] at hheld
  cases hheld

/-- Whatever bytes wait for a server's connection, and however the allocator answers, handling them
ends with the connection consistent or removed and no lock held exactly when each callback they
bring about is granted its buffers, and gets a header that the connection supports in a vector of
its own. -/
theorem handles_iff (env : Env) (k : Kernel) (l : Link) (hl : Serving env l) :
    Handles env k l ↔ Fed env l.entered (l.got ++ l.unread) :=
  ⟨fun h => by_contra fun hf => not_handles_of_not_fed hl hf h, handles_of_fed hl⟩

section Samples

/-- A peer that has sent these bytes and waits. -/
def sampleKernel : Kernel where
  chunk := fun _ => 10
  atEnd := .again
  files := fun _ => none

/-- A new connection with these bytes in its socket. -/
def sampleLink (bytes : List UInt8) : Link := { toWorld := sampleWorld, unread := bytes }

theorem serving_sampleLink (env : Env) (bytes : List UInt8) : Serving env (sampleLink bytes) where
  free _ := rfl
  inMap := rfl
  deleted := rfl
  cleaning := rfl
  refCount := le_rfl
  eventMap := rfl
  answers _ h := by cases h
  answersCur _ h := by cases h
  progress _ h := by cases h
  fresh v h := by
    rw [List.mem_singleton.1 h]
    rfl
  consistent := ⟨prepareRecvHeader, rfl, rfl, trivial⟩

/-- A header that announces `2 ^ 64 - 1` bytes of message, attachments and file. -/
def hugeHeader : PackHeader where
  mType i := MSG_TYPE_RPC.getD i 0
  mMsgLen := 0xFFFFFFFFFFFFFFFF
  mAttLen := 0xFFFFFFFFFFFFFFFF
  mFileLen := 0xFFFFFFFFFFFFFFFF

/-- With memory enough the header is taken, and the connection waits for the message. -/
theorem handles_huge : Serving sampleEnv (sampleLink hugeHeader.encode)
    ∧ Handles sampleEnv sampleKernel (sampleLink hugeHeader.encode) := by
  refine ⟨serving_sampleLink _ _, (handles_iff _ _ _ (serving_sampleLink _ _)).2 ?_⟩
  have hnext : ((deliver sampleEnv).step (sampleLink hugeHeader.encode).entered
      hugeHeader.encode).map (fun t => t.mRecvQ.map IoVec.size) = some [2 ^ 64 - 1] := by
    decide +kernel
  have hfed : Fed sampleEnv (sampleLink hugeHeader.encode).entered (hugeHeader.encode ++ []) := by
    refine (fed_append_iff (v := prepareRecvHeader) (q := []) rfl (by decide +kernel)).2 ⟨?_, ?_⟩
    · exact ⟨fun _ _ => rfl, fun _ _ => by decide⟩
    · intro t ht
      rw [ht, Option.map_some, Option.some.injEq] at hnext
      rcases hq : t.mRecvQ with _ | ⟨v, q⟩
      · exact fed_of_nil hq
      · rw [hq, List.map_cons, List.cons.injEq] at hnext
        exact fed_of_short hq (by rw [hnext.1]; decide)
  rwa [List.append_nil] at hfed

/-- How a computation faults. -/
def faultOf {α : Type} (x : LinkM α) (l : Link) : Option Fault :=
  match x l with
  | .ok _ _ => none
  | .error f _ => some f

/-- Where the buffer for the message is refused, the thread locks the receive queue it already
holds, and the process aborts. -/
theorem not_handles_refused :
    Serving { sampleEnv with mem := fun _ => false } (sampleLink hugeHeader.encode)
      ∧ faultOf (recvData { sampleEnv with mem := fun _ => false } sampleKernel 2)
          (sampleLink hugeHeader.encode) = some (.assertFailed "thread failed to own mutex")
      ∧ ¬ Handles { sampleEnv with mem := fun _ => false } sampleKernel
          (sampleLink hugeHeader.encode) := by
  refine ⟨serving_sampleLink _ _, by decide +kernel, ?_⟩
  refine not_handles_of_not_fed (serving_sampleLink _ _) fun h => ?_
  have hs := h [] hugeHeader.encode [] (sampleLink hugeHeader.encode).entered (by simp; rfl) rfl
    ⟨prepareRecvHeader, [], rfl, by decide +kernel⟩
  exact absurd (hs.1 0 (by decide)) (by decide)

end Samples

end Longda
