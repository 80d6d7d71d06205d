import Longda.Net.Framing
import Longda.Net.SendProgress

/-!
# Order and accounting of the vectors sent

A vector posted goes through the queue to the current place and from there to its callback, and
none of these is ever out of posting order (`Live`): what was called back, the current vector and
the queue are together the vectors posted. So what is on the socket is what `wire` makes of the
vectors called back, and the part of the current one that is transferred. `cleanup` calls back
whatever is left.
-/

namespace Longda

open Lib

theorem eq_length_of_map_range {α : Type*} {f : α → ℕ} {l₁ l₂ : List α} {a : α} {n : ℕ}
    (h : (l₁ ++ a :: l₂).map f = List.range n) : f a = l₁.length := by
  have hn : n = (l₁ ++ a :: l₂).length := by simpa using (congrArg List.length h).symm
  have hget := congrArg (·[l₁.length]?) h
  simpa [hn] using hget

/-! ## The vectors of a frame -/

/-- The vectors that `prepareFrame` makes are fresh. -/
theorem exists_fresh_of_prepareFrame {μ : Type*} [Serializable μ] {garbage : ℕ → UInt8}
    {md : SendDesc μ} {kind : FrameKind} {iovs : List SendVec}
    (h : prepareFrame garbage md.toMsgDesc kind = some iovs) :
    ∃ vecs : List FreshVec, vecs.map FreshVec.toSendVec = iovs := by
  rw [prepareFrame_eq] at h
  obtain ⟨batch, hbatch, rfl⟩ := Option.map_eq_some_iff.1 h
  unfold prepareIovecs at hbatch
  split_ifs at hbatch
  obtain ⟨iov, hiov, rfl⟩ := Option.map_eq_some_iff.1 hbatch
  obtain ⟨hdr, msg, -, hmade, -⟩ := makeRpcMessage_some hiov
  -- before the parameter is set, each vector is full and fresh and has none
  have hbare : ∀ v ∈ iov :: md.attachMems.map SendVec.ofVec,
      v.base.length = v.size ∧ v.xferred = 0 ∧ v.cbParam = none := by
    intro v hv
    rcases List.mem_cons.1 hv with rfl | hv
    · rw [hmade]
      exact ⟨by simp, rfl, rfl⟩
    · obtain ⟨w, hw, rfl⟩ := List.mem_map.1 hv
      exact ⟨(ofVec_size (md.filled w hw) _).symm, rfl, rfl⟩
  have hdone : (frameParam md.toMsgDesc kind).eventDone = false := by cases kind <;> rfl
  generalize iov :: md.attachMems.map SendVec.ofVec = vs at hbare
  generalize md.attachMems.length = n
  induction vs generalizing n with
  | nil => exact ⟨[], by simp⟩
  | cons v vs ih =>
    obtain ⟨hfull, hx, hnone⟩ := hbare v (by simp)
    have hvs : ∀ w ∈ vs, w.base.length = w.size ∧ w.xferred = 0 ∧ w.cbParam = none :=
      fun w hw => hbare w (by simp [hw])
    cases n with
    | zero =>
      obtain ⟨vecs, hvecs⟩ := ih hvs vs.length
      rw [List.modify_eq_self le_rfl] at hvecs
      let first : FreshVec :=
        { toSendVec := v.setCallback (frameParam md.toMsgDesc kind)
          filled := hfull
          fresh := hx
          pending := fun cbp hc => Option.some.inj hc ▸ hdone }
      exact ⟨first :: vecs, by simp [first, hvecs]⟩
    | succ n =>
      obtain ⟨vecs, hvecs⟩ := ih hvs n
      let first : FreshVec :=
        { toSendVec := v
          filled := hfull
          fresh := hx
          pending := fun cbp hc => (Option.some_ne_none cbp (hc.symm.trans hnone)).elim }
      exact ⟨first :: vecs, by simp [first, hvecs]⟩

/-! ## The file behind a vector -/

/-- Where the kernel reports no error the loop sends the slice it was asked for. -/
theorem Sock.sendfileAnswered_eq {file : ℕ → UInt8} : ∀ {answers : List (Option ℕ)}
    {sendOffset remain : ℕ} {bytes : List UInt8}, none ∉ answers →
    sendfileAnswered file sendOffset remain answers = some bytes →
    bytes = fileSlice file sendOffset remain
  | [], sendOffset, remain, bytes, _, h => by
    simp only [sendfileAnswered] at h
    split_ifs at h with hr
    cases h
    simp [hr, fileSlice]
  | none :: answers, _, _, _, hno, _ => absurd List.mem_cons_self hno
  | some n :: answers, sendOffset, remain, bytes, hno, h => by
    simp only [sendfileAnswered] at h
    split_ifs at h with hn
    obtain ⟨rest, hrest, rfl⟩ := Option.map_eq_some_iff.1 h
    rw [sendfileAnswered_eq (fun hm => hno (List.mem_cons_of_mem _ hm)) hrest, ← fileSlice_add,
      Nat.add_sub_cancel' (by omega)]

theorem sendCallbackAnswered_eq {files : Files} {cbParam : Option CbParam} {state final : VecState}
    {answers : List (Option ℕ)} {bytes : List UInt8}
    (h : sendCallbackAnswered files cbParam state answers = some (bytes, final, false)) :
    bytes = (sendCallbackFile files cbParam state).1 := by
  rcases cbParam with _ | cbp
  · simp only [sendCallbackAnswered, Option.some.injEq, Prod.mk.injEq] at h
    exact h.1.symm
  · by_cases hc : state = .DONE ∧ cbp.fileLen ≠ 0
    · simp only [sendCallbackAnswered, if_pos hc] at h
      rcases hf : files cbp.filePath with _ | file
      · simp [hf] at h
      · simp only [hf] at h
        obtain ⟨rest, hrest, he⟩ := Option.map_eq_some_iff.1 h
        simp only [Prod.mk.injEq, decide_eq_false_iff_not] at he
        obtain ⟨rfl, -, hno⟩ := he
        simp only [sendCallbackFile, if_pos hc, Sock.sendfile, hf]
        rw [Sock.sendfileLoop_eq]
        exact Sock.sendfileAnswered_eq hno hrest
    · simp only [sendCallbackAnswered, if_neg hc, Option.some.injEq, Prod.mk.injEq] at h
      simp only [sendCallbackFile, if_neg hc]
      exact h.1.symm

/-- Whether the stage says nothing about the current vector. -/
def Stage.plain : Stage → Bool
  | .complete .DONE => false
  | .callback _ => false
  | .next => false
  | _ => true

namespace Sending

/-- The bytes on the socket. -/
def written (s : Sending) : List UInt8 := s.chunks.flatMap Chunk.bytes

/-- What was sent out of the buffer of the vector in this place. -/
def sentOf (s : Sending) (pos : ℕ) : List UInt8 :=
  (s.chunks.filter fun c => c.pos = pos ∧ c.file = false).flatMap Chunk.bytes

/-- The vectors posted, from the first called back to the last in the queue. -/
def lineup (s : Sending) : List Posted :=
  s.invoked.map Invocation.item ++ s.mCurSendBlock.toList ++ s.mSendQ

/-- What the stage of the holder says about the current vector. -/
structure Staged (s : Sending) : Prop where
  done : s.holder = some (.complete .DONE) → ∀ p, s.mCurSendBlock = some p → p.vec.done = true
  callback : ∀ vs, s.holder = some (.callback vs) → s.mCurSendBlock = none
  next : s.holder = some .next → s.mCurSendBlock = none

structure Live (files : Files) (s : Sending) : Prop where
  order : s.lineup.map Posted.unsent = s.posted
  numbered : s.posted.map Posted.pos = List.range s.posted.length
  filled : ∀ p ∈ s.posted, p.vec.base.length = p.vec.size
  fresh : ∀ p ∈ s.mSendQ, p.vec.xferred = 0
  early : ∀ c ∈ s.chunks, c.pos < s.invoked.length + s.mCurSendBlock.toList.length
  sent : ∀ p, s.mCurSendBlock = some p →
    p.vec.xferred ≤ p.vec.size ∧ s.sentOf p.pos = p.vec.base.take p.vec.xferred
  done : ∀ i ∈ s.invoked, i.state = .DONE → s.sentOf i.item.pos = i.item.vec.base
  wired : s.failed = false → s.written = wire files (s.invoked.map fun i => i.item.vec) ++
    s.mCurSendBlock.toList.flatMap fun p => p.vec.base.take p.vec.xferred

/-- What holds of the vectors however far the connection has come. -/
structure Accounted (files : Files) (s : Sending) : Prop where
  numbered : s.posted.map Posted.pos = List.range s.posted.length
  wired : s.failed = false → s.written <+: wire files (s.posted.map Posted.vec)
  ordered : ((s.invoked.filter (·.state = .DONE)).map fun i => i.item.pos).Pairwise (· < ·)
  done : ∀ i ∈ s.invoked, i.state = .DONE → s.sentOf i.item.pos = i.item.vec.base
  once : s.deleted = true → (s.invoked.map fun i => i.item.unsent).Perm s.posted

variable {s t : Sending} {files : Files} {l : SendStep} {p : Posted}

/-! ## The stage of the holder -/

theorem Staged.congr (hs : s.Staged) (hcur : t.mCurSendBlock = s.mCurSendBlock)
    (hholder : t.holder = s.holder) : t.Staged where
  done := by rw [hcur, hholder]; exact hs.done
  callback := by rw [hcur, hholder]; exact hs.callback
  next := by rw [hcur, hholder]; exact hs.next

theorem staged_of_plain {stage : Stage} (h : t.holder = some stage) (hp : stage.plain = true) :
    t.Staged where
  done he := by rw [h, Option.some.injEq] at he; rw [he] at hp; cases hp
  callback vs he := by rw [h, Option.some.injEq] at he; rw [he] at hp; cases hp
  next he := by rw [h, Option.some.injEq] at he; rw [he] at hp; cases hp

theorem staged_of_none (h : t.holder = none) : t.Staged where
  done he := by rw [h] at he; cases he
  callback vs he := by rw [h] at he; cases he
  next he := by rw [h] at he; cases he

theorem staged_step (hs : s.Staged) (h : SendMove files s l t) : t.Staged := by
  cases h with
  | postSend | prepareSend | sendData | sendProgress | setCleaning | socketFull
  | socketWritable | epollWait | setReadyToSend | pushSock => exact hs.congr rfl rfl
  | lock | unready | enter | refuse | attempt | sent | eagain | error | clearReady | empty | take =>
    exact staged_of_plain rfl rfl
  | goRound | goOut => exact staged_of_none rfl
  | noVec hholder hflag hcur => exact ⟨nofun, nofun, fun _ => hcur⟩
  | done hholder hcur hdone =>
    exact ⟨fun _ p hp => Option.some.inj (hcur.symm.trans hp) ▸ hdone, nofun, nofun⟩
  | complete answers hholder hcur hfile => exact ⟨nofun, fun _ _ => rfl, nofun⟩
  | endCallback hholder =>
    have hcur := hs.callback _ hholder
    exact ⟨fun _ p hp => (Option.some_ne_none p (hp.symm.trans hcur)).elim, fun _ _ => hcur,
      fun _ => hcur⟩
  | cleanup how hclean hunused =>
    exact ⟨fun _ p hp => (Option.some_ne_none p hp.symm).elim, fun _ _ => rfl, fun _ => rfl⟩

/-! ## The places of the vectors -/

theorem Live.places (hs : s.Live files) :
    s.lineup.map Posted.pos = List.range s.posted.length := by
  rw [← hs.numbered, ← hs.order, List.map_map]
  rfl

theorem Live.pos_invoked (hs : s.Live files) :
    s.invoked.map (fun i => i.item.pos) = List.range s.invoked.length := by
  have h := congrArg (List.take s.invoked.length) hs.places
  have hlen : s.invoked.length ≤ s.posted.length := by
    rw [← hs.order, List.length_map]
    simp only [lineup, List.length_append, List.length_map]
    omega
  simp only [lineup, List.append_assoc, List.map_append, List.map_map] at h
  rw [List.take_left' (by simp), List.take_range, min_eq_left hlen] at h
  exact h

theorem Live.pos_lt_of_invoked (hs : s.Live files) {i : Invocation} (hi : i ∈ s.invoked) :
    i.item.pos < s.invoked.length := by
  have : i.item.pos ∈ s.invoked.map fun i => i.item.pos := List.mem_map_of_mem hi
  rw [hs.pos_invoked] at this
  exact List.mem_range.1 this

theorem Live.pos_cur (hs : s.Live files) (hcur : s.mCurSendBlock = some p) :
    p.pos = s.invoked.length := by
  have h := hs.places
  simp only [lineup, hcur, Option.toList_some, List.append_assoc, List.singleton_append] at h
  rw [eq_length_of_map_range h, List.length_map]

theorem Live.pos_head (hs : s.Live files) (hcur : s.mCurSendBlock = none) {q : List Posted}
    (hq : s.mSendQ = p :: q) : p.pos = s.invoked.length := by
  have h := hs.places
  simp only [lineup, hcur, Option.toList_none, List.append_nil, hq] at h
  rw [eq_length_of_map_range h, List.length_map]

theorem Live.filled_of_mem (hs : s.Live files) (hp : p ∈ s.lineup) :
    p.vec.base.length = p.vec.size :=
  hs.filled p.unsent (hs.order ▸ List.mem_map_of_mem hp)

/-! ## What is sent for a vector -/

theorem sentOf_snoc (chunk : Chunk) (h : t.chunks = s.chunks ++ [chunk]) (pos : ℕ) :
    t.sentOf pos = s.sentOf pos ++
      if chunk.pos = pos ∧ chunk.file = false then chunk.bytes else [] := by
  simp only [sentOf, h, List.filter_append, List.flatMap_append]
  split_ifs with hc <;> simp [hc]

theorem written_snoc (chunk : Chunk) (h : t.chunks = s.chunks ++ [chunk]) :
    t.written = s.written ++ chunk.bytes := by
  simp [written, h]

theorem Live.sentOf_eq_nil (hs : s.Live files) {pos : ℕ}
    (hpos : s.invoked.length + s.mCurSendBlock.toList.length ≤ pos) : s.sentOf pos = [] := by
  simp only [sentOf, List.flatMap_eq_nil_iff, List.mem_filter, decide_eq_true_eq]
  rintro c ⟨hc, rfl, -⟩
  exact absurd (hs.early c hc) (by omega)

theorem wire_append (files : Files) (vs ws : List SendVec) :
    wire files (vs ++ ws) = wire files vs ++ wire files ws := List.flatMap_append

theorem wire_unsent (files : Files) (ps : List Posted) :
    wire files ((ps.map Posted.unsent).map Posted.vec) = wire files (ps.map Posted.vec) := by
  simp only [wire, List.flatMap_map]
  rfl

/-! ## The steps that move vectors or bytes -/

theorem live_start (files : Files) : ({} : Sending).Live files where
  order := rfl
  numbered := rfl
  filled := by simp
  fresh := by simp
  early := by simp
  sent := by simp
  done := by simp
  wired := fun _ => rfl

/-- What the invariant is about. -/
def book (s : Sending) : Option Posted × List Posted × List Posted × List Chunk ×
    List Invocation × Bool :=
  (s.mCurSendBlock, s.mSendQ, s.posted, s.chunks, s.invoked, s.failed)

theorem Live.congr (hs : s.Live files) (h : t.book = s.book) : t.Live files := by
  simp only [book, Prod.mk.injEq] at h
  obtain ⟨hcur, hq, hp, hc, hi, hf⟩ := h
  have hl : t.lineup = s.lineup := by simp only [lineup, hcur, hq, hi]
  have hsent : ∀ pos, t.sentOf pos = s.sentOf pos := fun pos => by simp only [sentOf, hc]
  exact {
    order := by rw [hl, hp]; exact hs.order
    numbered := by rw [hp]; exact hs.numbered
    filled := by rw [hp]; exact hs.filled
    fresh := by rw [hq]; exact hs.fresh
    early := by rw [hc, hi, hcur]; exact hs.early
    sent := by simp only [hsent, hcur]; exact hs.sent
    done := by simp only [hsent, hi]; exact hs.done
    wired := by simp only [written, hf, hc, hi, hcur]; exact hs.wired }

theorem unsent_number (vecs : List FreshVec) :
    (s.number vecs).map Posted.unsent = s.number vecs := by
  simp only [number, List.map_map, List.map_inj_left]
  rintro ⟨v, i⟩ -
  simp [Posted.unsent, ← v.fresh]

theorem live_postSend (hs : s.Live files) (vecs : List FreshVec) :
    (s.postSend vecs).Live files where
  order := by
    have : (s.postSend vecs).lineup = s.lineup ++ s.number vecs := by simp [lineup, postSend]
    rw [this, List.map_append, hs.order, unsent_number]
    rfl
  numbered := by
    have : (s.number vecs).map Posted.pos = List.range' s.posted.length vecs.length := by
      simp only [number, List.map_map]
      exact List.zipIdx_map_snd _ _
    have happ := List.range'_append_1 (s := 0) (m := s.posted.length) (n := vecs.length)
    simp only [postSend, List.map_append, hs.numbered, this, List.length_append]
    rw [List.range_eq_range', List.range_eq_range', number, List.length_map, List.length_zipIdx,
      ← happ, Nat.zero_add]
  filled := by
    intro p hp
    rcases List.mem_append.1 hp with hp | hp
    · exact hs.filled p hp
    · obtain ⟨⟨v, i⟩, -, rfl⟩ := List.mem_map.1 hp
      exact v.filled
  fresh := by
    intro p hp
    rcases List.mem_append.1 hp with hp | hp
    · exact hs.fresh p hp
    · obtain ⟨⟨v, i⟩, -, rfl⟩ := List.mem_map.1 hp
      exact v.fresh
  early := hs.early
  sent := hs.sent
  done := hs.done
  wired := hs.wired

theorem live_accept (hs : s.Live files) (hcur : s.mCurSendBlock = some p) {n : ℕ}
    (hle : n ≤ p.vec.remain) : (s.accept p n).Live files := by
  obtain ⟨hx, hsent⟩ := hs.sent p hcur
  have hpos := hs.pos_cur hcur
  have hn : p.vec.xferred + n ≤ p.vec.size := by
    unfold IoVec.remain at hle
    omega
  have htake : p.vec.base.take p.vec.xferred ++ p.taken n
      = p.vec.base.take (p.vec.xferred + n) := List.take_add.symm
  have hone : ∀ pos, (s.accept p n).sentOf pos = s.sentOf pos ++
      if p.pos = pos then p.taken n else [] := fun pos => by
    rw [sentOf_snoc ⟨p.pos, false, p.taken n⟩ rfl]
    simp
  exact {
    order := by
      refine Eq.trans ?_ hs.order
      simp only [lineup, accept, atStage, hcur, List.map_append, Option.toList_some]
      rfl
    numbered := hs.numbered
    filled := hs.filled
    fresh := hs.fresh
    early := fun c hc => by
      simp only [accept, atStage, Option.toList_some, List.length_singleton]
      rcases List.mem_append.1 hc with hc | hc
      · have := hs.early c hc
        simpa [hcur] using this
      · rw [List.mem_singleton.1 hc, hpos]
        exact Nat.lt_succ_self _
    sent := fun p' hp' => by
      obtain rfl : p.incXferred n = p' := Option.some.inj hp'
      refine ⟨hn, ?_⟩
      have hpos' : (p.incXferred n).pos = p.pos := rfl
      rw [hpos', hone, if_pos rfl, hsent, htake]
      rfl
    done := fun i hi hd => by
      have := hs.pos_lt_of_invoked hi
      rw [hone, if_neg (by omega), List.append_nil]
      exact hs.done i hi hd
    wired := fun hf => by
      rw [written_snoc ⟨p.pos, false, p.taken n⟩ rfl, hs.wired hf]
      simp only [accept, atStage, hcur, Option.toList_some, List.flatMap_singleton,
        List.append_assoc, htake]
      rfl }

theorem live_invoke (hs : s.Live files) (hcur : s.mCurSendBlock = some p) {vs final : VecState}
    {answers : List (Option ℕ)} {bytes : List UInt8} {err : Bool} (hdone : vs = .DONE → p.vec.done)
    (hfile : sendCallbackAnswered files p.vec.cbParam vs answers = some (bytes, final, err)) :
    (s.invoke p vs bytes final err).Live files := by
  obtain ⟨hx, hsent⟩ := hs.sent p hcur
  have hpos := hs.pos_cur hcur
  have hsame : ∀ pos, (s.invoke p vs bytes final err).sentOf pos = s.sentOf pos := fun pos => by
    rw [sentOf_snoc ⟨p.pos, true, bytes⟩ rfl]
    simp
  have hall : vs = .DONE → p.vec.base.take p.vec.xferred = p.vec.base := fun h => by
    have hd : p.vec.xferred = p.vec.size := by simpa [IoVec.done] using hdone h
    have hp := hs.filled_of_mem (p := p) (by simp [lineup, hcur])
    rw [hd, ← hp, List.take_length]
  exact {
    order := by
      refine Eq.trans ?_ hs.order
      simp [lineup, invoke, atStage, hcur]
    numbered := hs.numbered
    filled := hs.filled
    fresh := hs.fresh
    early := fun c hc => by
      simp only [invoke, atStage, Option.toList_none, List.length_nil, List.length_append,
        List.length_singleton]
      rcases List.mem_append.1 hc with hc | hc
      · have := hs.early c hc
        simpa [hcur] using this
      · rw [List.mem_singleton.1 hc, hpos]
        exact Nat.lt_succ_self _
    sent := nofun
    done := fun i hi hd => by
      rw [hsame]
      rcases List.mem_append.1 hi with hi | hi
      · exact hs.done i hi hd
      · obtain rfl := List.mem_singleton.1 hi
        exact hsent.trans (hall hd)
    wired := fun hf => by
      simp only [invoke, atStage, Bool.or_eq_false_iff, bne_eq_false_iff_eq] at hf
      obtain ⟨⟨hf, rfl⟩, rfl⟩ := hf
      have hp := hs.filled_of_mem (p := p) (by simp [lineup, hcur])
      rw [written_snoc ⟨p.pos, true, bytes⟩ rfl, hs.wired hf, sendCallbackAnswered_eq hfile]
      simp only [invoke, atStage, hcur, Option.toList_some, Option.toList_none,
        List.flatMap_singleton, List.flatMap_nil, List.append_nil, List.map_append, List.map_cons,
        List.map_nil, wire_append, hall rfl, List.append_assoc]
      simp [wire, ← hp] }

theorem live_take (hs : s.Live files) (hcur : s.mCurSendBlock = none) {q : List Posted}
    (hq : s.mSendQ = p :: q) :
    { s.atStage .again with mCurSendBlock := some p, mSendQ := q }.Live files := by
  have hpos := hs.pos_head hcur hq
  have hx := hs.fresh p (by simp [hq])
  exact {
    order := by
      refine Eq.trans ?_ hs.order
      simp [lineup, atStage, hcur, hq]
    numbered := hs.numbered
    filled := hs.filled
    fresh := fun p' hp' => hs.fresh p' (by simp [hq, hp'])
    early := fun c hc => by
      have := hs.early c hc
      rw [hcur] at this
      exact Nat.lt_succ_of_lt this
    sent := fun p' hp' => by
      obtain rfl : p = p' := Option.some.inj hp'
      refine ⟨hx ▸ Nat.zero_le _, ?_⟩
      rw [hx, List.take_zero, hpos]
      exact hs.sentOf_eq_nil (by simp [hcur])
    done := hs.done
    wired := fun hf => by
      refine (hs.wired hf).trans ?_
      simp [atStage, hcur, hx] }

theorem live_step (hs : s.Live files) (hst : s.Staged) (h : SendMove files s l t)
    (ht : t.deleted = false) : t.Live files := by
  cases h with
  | postSend vecs hpost => exact live_postSend hs vecs
  | sent n hholder hcur hpos hle => exact live_accept hs hcur hle
  | complete answers hholder hcur hfile =>
    exact live_invoke hs hcur (fun hvs => hst.done (hvs ▸ hholder) _ hcur) hfile
  | take hholder hq => exact live_take hs (hst.next hholder) hq
  | cleanup => cases ht
  | prepareSend | sendData | sendProgress | lock | unready | noVec | enter | done | refuse | attempt
  | eagain | error | clearReady | endCallback | empty | goRound | goOut | setCleaning | socketFull
  | socketWritable | epollWait | setReadyToSend | pushSock => exact hs.congr rfl

/-! ## What is accounted for -/

theorem Live.accounted (hs : s.Live files) (hlive : s.deleted = false) : s.Accounted files where
  numbered := hs.numbered
  wired hf := by
    have hcur : (s.mCurSendBlock.toList.flatMap fun p => p.vec.base.take p.vec.xferred) <+:
        wire files (s.mCurSendBlock.toList.map Posted.vec) := by
      rcases hc : s.mCurSendBlock with _ | p
      · exact List.prefix_refl _
      · have hp := hs.filled_of_mem (p := p) (by simp [lineup, hc])
        simp only [Option.toList_some, List.flatMap_singleton, List.map_cons, List.map_nil, wire,
          ← hp, List.take_length]
        exact (List.take_prefix _ _).trans (List.prefix_append _ _)
    rw [hs.wired hf, ← hs.order, wire_unsent]
    simp only [lineup, List.map_append, List.map_map, wire_append, List.append_assoc]
    exact List.prefix_append_right_inj _ |>.2 (hcur.trans (List.prefix_append _ _))
  ordered := by
    have h : (s.invoked.map fun i => i.item.pos).Pairwise (· < ·) :=
      hs.pos_invoked ▸ List.pairwise_lt_range
    exact h.sublist (List.filter_sublist.map _)
  done := hs.done
  once hd := absurd (hlive.symm.trans hd) (by simp)

/-- `cleanup` completes nothing with `DONE`, and calls back what was not called back. -/
theorem Live.accounted_cleanup (hs : s.Live files) (hlive : s.deleted = false) (how : CleanupT) :
    (s.cleanup how).Accounted files := by
  have hacc := hs.accounted hlive
  have hnot : how.vecState ≠ .DONE := by cases how <;> simp [CleanupT.vecState]
  exact {
    numbered := hs.numbered
    wired := hacc.wired
    ordered := by
      have : (s.cleanup how).invoked.filter (·.state = .DONE)
          = s.invoked.filter (·.state = .DONE) := by
        simp [cleanup, hnot]
      rw [this]
      exact hacc.ordered
    done := fun i hi hd => by
      rcases List.mem_append.1 hi with hi | hi
      · exact hs.done i hi hd
      · obtain ⟨p, -, rfl⟩ := List.mem_map.1 hi
        exact absurd hd hnot
    once := fun _ => by
      have hflush : (s.cleanup how).invoked.map (fun i => i.item.unsent)
          = (s.invoked.map Invocation.item ++ s.flushed).map Posted.unsent := by
        simp [cleanup, Function.comp_def]
      have hperm : (s.invoked.map Invocation.item ++ s.flushed).Perm s.lineup := by
        rw [lineup, List.append_assoc]
        exact List.perm_append_comm.append_left _
      rw [hflush]
      exact (hperm.map _).trans (.of_eq hs.order) }

/-- A connection in use is in order, and a deleted one accounted for. -/
def InOrder (files : Files) (s : Sending) : Prop :=
  s.Staged ∧ (s.deleted = false → s.Live files) ∧ s.Accounted files

theorem inOrder_step (hs : s.InOrder files) (h : (sending files).step s l = some t) :
    t.InOrder files := by
  obtain ⟨hst, hlive, -⟩ := hs
  have hd := sending_alive h
  have hmove := sendMove_of_step h
  refine ⟨staged_step hst hmove, live_step (hlive hd) hst hmove, ?_⟩
  rcases ht : t.deleted with _ | _
  · exact (live_step (hlive hd) hst hmove ht).accounted ht
  · cases hmove with
    | cleanup how => exact (hlive hd).accounted_cleanup hd how
    | _ => exact absurd (hd.symm.trans ht) (by simp)

theorem inOrder_start (files : Files) : ({} : Sending).InOrder files :=
  ⟨staged_of_none rfl, fun _ => live_start files, (live_start files).accounted rfl⟩

end Sending

/-- In every run the bytes on the socket are a prefix of the buffers posted, each followed by its
file, until something fails; vectors are completed in posting order, with `DONE` when their whole
buffer is sent; and the end of the connection leaves none to call back. -/
theorem sent_in_order (files : Files) {steps : List SendStep} {s : Sending}
    (hrun : (sending files).run {} steps = some s) : s.Accounted files :=
  ((sending files).run_inv_of_step (fun _ _ _ hs h => Sending.inOrder_step hs h) steps
    (Sending.inOrder_start files) hrun).2.2

/-- The vector is posted, sent and called back. -/
def sendOne (v : FreshVec) : List SendStep :=
  [.postSend [v], .socketWritable, .epollWait, .setReadyToSend, .pushSock, .sendData, .lock, .test,
    .next, .unlock, .lock, .test, .loop, .sent 1, .loop, .complete [some 1]]

theorem sent_in_order_oneFile : ∃ s, (sending fun _ => some fun _ => 2).run {}
    (sendOne withFile ++ [.endCallback, .next, .unlock, .setCleaning, .cleanup .ON_ERROR])
      = some s ∧
      s.deleted = true ∧ s.Accounted fun _ => some fun _ => 2 := by
  obtain ⟨s, hs, hd⟩ : ∃ s, (sending fun _ => some fun _ => 2).run {} (sendOne withFile ++
      [.endCallback, .next, .unlock, .setCleaning, .cleanup .ON_ERROR]) = some s ∧
      s.deleted = true := ⟨_, rfl, rfl⟩
  exact ⟨s, hs, hd, sent_in_order _ hs⟩

/-- The byte of the file is on the socket, and in no buffer. -/
theorem file_not_posted : ∃ s,
    (sending fun _ => some fun _ => 2).run {} (sendOne withFile) = some s ∧
    s.failed = false ∧ ¬ s.written <+: s.posted.flatMap fun p => p.vec.base :=
  ⟨_, rfl, rfl, by decide⟩

end Longda
