import Longda.Comm.CommEvent
import Longda.Net.SendOrder

/-!
# After a failed send

A vector that `send` reports an error for is given up, and `sendProgress` returns
`CONN_ERR_BROKEN`, but its caller goes on and the rest of the message stays in the queue: the next
call would send it. Nothing is sent only where each later attempt finds the socket not ready, no
current vector, or the connection being cleaned up with something of the vector left (`Refused`).
Then the connection is `Halted`: nothing behind the failed vector is written or completed with
`DONE`, and `cleanup` completes the event of its message as failed.
-/

namespace Longda

open Lib

/-- What a callback makes of the event of its parameter. -/
inductive EventMark where
  | sent
  | failed (status : Int32)
  deriving DecidableEq

def Posted.event (p : Posted) : Option EventId := p.vec.cbParam.bind CbParam.cev

/-- What `sendReqCallback` or `sendRspCallback` does to the event. -/
def Invocation.mark (i : Invocation) : Option (EventId × EventMark) :=
  i.item.event.map fun cev =>
    (cev, match i.final with
      | .DONE => .sent
      | .CLEANUP => .failed CommEvent.STAGE_CLEANUP
      | .ERROR => .failed CommEvent.SEND_FAILURE)

def SendStep.attempts : SendStep → Bool
  | .test => true
  | _ => false

namespace Sending

/-- The last vector of a batch, which carries the event of the message. -/
def carrier (s : Sending) (batch : ℕ) : Option Posted :=
  (s.posted.filter (·.batch = batch)).getLast?

/-- `sendvecProgress` sends nothing and completes nothing with `DONE`. -/
def Refused (s : Sending) : Prop :=
  s.mReadyToSend = false ∨ ∀ p ∈ s.mCurSendBlock, p.vec.done = false ∧ s.mCleaning = true

/-- Behind a failed send each attempt to send is refused. -/
def StopsAfterError (s : Sending) (l : SendStep) : Prop :=
  l.attempts = true → s.broken ≠ [] → s.Refused

/-- Whether the holder is on its way to a `send` or to a vector completed with `DONE`. -/
def Sends (s : Sending) : Prop :=
  s.holder = some .send ∨ s.holder = some .full ∨ s.holder = some (.complete .DONE) ∨
    s.holder = some .loop ∧ ∃ p ∈ s.mCurSendBlock, p.vec.done = true ∨ s.mCleaning = false

structure Halted (s : Sending) : Prop where
  idle : s.broken ≠ [] → ¬ s.Sends
  unwritten : ∀ p ∈ s.broken, ∀ c ∈ s.chunks, c.bytes ≠ [] → c.pos ≤ p.pos
  undone : ∀ p ∈ s.broken, ∀ i ∈ s.invoked, i.state = .DONE → i.item.pos < p.pos
  final : ∀ i ∈ s.invoked, i.state ≠ .DONE → i.final = i.state
  posted : ∀ p ∈ s.broken, p.unsent ∈ s.posted

variable {s t : Sending} {files : Files} {l : SendStep} {p q : Posted}

theorem sendCallbackAnswered_of_ne {cbParam : Option CbParam} {state final : VecState}
    {answers : List (Option ℕ)} {bytes : List UInt8} {err : Bool} (hstate : state ≠ .DONE)
    (h : sendCallbackAnswered files cbParam state answers = some (bytes, final, err)) :
    bytes = [] ∧ final = state := by
  rcases cbParam with _ | cbp
  · simp only [sendCallbackAnswered, Option.some.injEq, Prod.mk.injEq] at h
    exact ⟨h.1.symm, h.2.1.symm⟩
  · simp only [sendCallbackAnswered, hstate, false_and, if_false, Option.some.injEq,
      Prod.mk.injEq] at h
    exact ⟨h.1.symm, h.2.1.symm⟩

/-! ## A connection stays halted -/

/-- A step that writes and calls back nothing, and brings the holder no nearer to a `send`. -/
theorem Halted.congr (hs : s.Halted) (hbroken : t.broken = s.broken) (hchunks : t.chunks = s.chunks)
    (hinvoked : t.invoked = s.invoked) (hposted : ∀ p ∈ s.posted, p ∈ t.posted)
    (hidle : s.broken ≠ [] → ¬ s.Sends → ¬ t.Sends) : t.Halted where
  idle h := by rw [hbroken] at h; exact hidle h (hs.idle h)
  unwritten := by rw [hbroken, hchunks]; exact hs.unwritten
  undone := by rw [hbroken, hinvoked]; exact hs.undone
  final := by rw [hinvoked]; exact hs.final
  posted p hp := by rw [hbroken] at hp; exact hposted _ (hs.posted p hp)

theorem Halted.unbroken (hs : s.Halted) (h : s.Sends) : s.broken = [] := by
  by_contra hb
  exact hs.idle hb h

theorem halted_of_unbroken (hb : t.broken = [])
    (hfinal : ∀ i ∈ t.invoked, i.state ≠ .DONE → i.final = i.state) : t.Halted where
  idle h := absurd hb h
  unwritten := by simp [hb]
  undone := by simp [hb]
  final := hfinal
  posted := by simp [hb]

theorem halted_error (hs : s.Halted) (hlive : s.Live files) (hholder : s.holder = some .send)
    (hcur : s.mCurSendBlock = some p) :
    { s.atStage (.complete .ERROR) with broken := s.broken ++ [p] }.Halted := by
  have hb : s.broken = [] := hs.unbroken (.inl hholder)
  have hpos := hlive.pos_cur hcur
  have honly : ∀ p' ∈ s.broken ++ [p], p' = p := by simp [hb]
  exact {
    idle := fun _ => by simp [Sends, atStage]
    unwritten := fun p' hp' c hc _ => by
      rw [honly p' hp', hpos]
      have := hlive.early c hc
      simp only [hcur, Option.toList_some, List.length_singleton] at this
      exact Nat.le_of_lt_succ this
    undone := fun p' hp' i hi _ => by
      rw [honly p' hp', hpos]
      exact hlive.pos_lt_of_invoked hi
    final := hs.final
    posted := fun p' hp' => by
      rw [honly p' hp']
      have hmem : p ∈ s.lineup := by simp [lineup, hcur]
      exact (hlive.order ▸ List.mem_map_of_mem hmem : p.unsent ∈ s.posted) }

theorem halted_invoke (hs : s.Halted) {vs final : VecState} {answers : List (Option ℕ)}
    {bytes : List UInt8} {err : Bool} (hholder : s.holder = some (.complete vs))
    (hfile : sendCallbackAnswered files p.vec.cbParam vs answers = some (bytes, final, err)) :
    (s.invoke p vs bytes final err).Halted := by
  have hne : s.broken ≠ [] → vs ≠ .DONE := by
    rintro hb rfl
    exact hb (hs.unbroken (.inr (.inr (.inl hholder))))
  exact {
    idle := fun _ => by simp [Sends, invoke, atStage]
    unwritten := fun p' hp' c hc hbytes => by
      rcases List.mem_append.1 hc with hc | hc
      · exact hs.unwritten p' hp' c hc hbytes
      · rw [List.mem_singleton.1 hc] at hbytes
        exact absurd (sendCallbackAnswered_of_ne (hne (List.ne_nil_of_mem hp')) hfile).1 hbytes
    undone := fun p' hp' i hi hd => by
      rcases List.mem_append.1 hi with hi | hi
      · exact hs.undone p' hp' i hi hd
      · rw [List.mem_singleton.1 hi] at hd
        exact absurd hd (hne (List.ne_nil_of_mem hp'))
    final := fun i hi hd => by
      rcases List.mem_append.1 hi with hi | hi
      · exact hs.final i hi hd
      · obtain rfl := List.mem_singleton.1 hi
        exact (sendCallbackAnswered_of_ne hd hfile).2
    posted := hs.posted }

theorem halted_cleanup (hs : s.Halted) (how : CleanupT) : (s.cleanup how).Halted := by
  have hnot : how.vecState ≠ .DONE := by cases how <;> simp [CleanupT.vecState]
  exact {
    idle := fun hb => by
      intro h
      refine hs.idle hb ?_
      rcases h with h | h | h | ⟨-, p, hp, -⟩
      · exact .inl h
      · exact .inr (.inl h)
      · exact .inr (.inr (.inl h))
      · cases hp
    unwritten := hs.unwritten
    undone := fun p' hp' i hi hd => by
      rcases List.mem_append.1 hi with hi | hi
      · exact hs.undone p' hp' i hi hd
      · obtain ⟨q, -, rfl⟩ := List.mem_map.1 hi
        exact absurd hd hnot
    final := fun i hi hd => by
      rcases List.mem_append.1 hi with hi | hi
      · exact hs.final i hi hd
      · obtain ⟨q, -, rfl⟩ := List.mem_map.1 hi
        rfl
    posted := hs.posted }

theorem halted_step (hs : s.Halted) (hlive : s.Live files) (hc : s.StopsAfterError l)
    (h : SendMove files s l t) : t.Halted := by
  cases h with
  | prepareSend | sendData | sendProgress | socketFull | socketWritable | epollWait
  | setReadyToSend | pushSock => exact hs.congr rfl rfl rfl (fun _ h => h) fun _ h => h
  | postSend vecs hpost =>
    exact hs.congr rfl rfl rfl (fun _ h => List.mem_append_left _ h) fun _ h => h
  | lock | unready | noVec | refuse | clearReady | empty | take | goRound | goOut =>
    exact hs.congr rfl rfl rfl (fun _ h => h) fun _ _ => by simp [Sends, atStage]
  | endCallback hholder =>
    refine hs.congr rfl rfl rfl (fun _ h => h) fun _ _ => ?_
    split_ifs <;> simp [Sends, atStage]
  | setCleaning =>
    refine hs.congr rfl rfl rfl (fun _ h => h) fun _ h ht => h ?_
    rcases ht with ht | ht | ht | ⟨ht, p, hp, hd⟩
    · exact .inl ht
    · exact .inr (.inl ht)
    · exact .inr (.inr (.inl ht))
    · exact .inr (.inr (.inr ⟨ht, p, hp, .inl (hd.resolve_right (by simp))⟩))
  | enter hholder hflag hcur =>
    refine hs.congr rfl rfl rfl (fun _ h => h) fun hb _ => ?_
    rcases hc rfl hb with hr | hr
    · exact absurd (hflag.symm.trans hr) (by simp)
    · obtain ⟨hd, hclean⟩ := hr _ hcur
      simp [Sends, atStage, hcur, hd, hclean]
  | done hholder hcur hdone =>
    exact halted_of_unbroken (hs.unbroken (.inr (.inr (.inr ⟨hholder, _, hcur, .inl hdone⟩))))
      hs.final
  | attempt hholder hcur hdone hclean =>
    exact halted_of_unbroken (hs.unbroken (.inr (.inr (.inr ⟨hholder, _, hcur, .inr hclean⟩))))
      hs.final
  | sent n hholder | eagain hholder =>
    exact halted_of_unbroken (hs.unbroken (.inl hholder)) hs.final
  | error hholder hcur => exact halted_error hs hlive hholder hcur
  | complete answers hholder hcur hfile => exact halted_invoke hs hholder hfile
  | cleanup how => exact halted_cleanup hs how

/-! ## The event of the message -/

theorem Accounted.pairwise (hs : s.Accounted files) : s.posted.Pairwise (·.pos < ·.pos) := by
  have h : (s.posted.map Posted.pos).Pairwise (· < ·) := hs.numbered ▸ List.pairwise_lt_range
  exact List.pairwise_map.1 h

/-- The carrier of a batch is behind all its vectors. -/
theorem Accounted.carrier_last (hs : s.Accounted files) (hp : p ∈ s.posted)
    (hq : s.carrier p.batch = some q) : q ∈ s.posted ∧ p.pos ≤ q.pos := by
  obtain ⟨ps, hps⟩ := List.getLast?_eq_some_iff.1 hq
  have hmem : ∀ x ∈ ps ++ [q], x ∈ s.posted := fun x hx => (List.mem_filter.1 (hps ▸ hx)).1
  have hsort : (ps ++ [q]).Pairwise (·.pos < ·.pos) := hps ▸ hs.pairwise.filter _
  refine ⟨hmem q (by simp), ?_⟩
  have hp' : p ∈ ps ++ [q] := hps ▸ List.mem_filter.2 ⟨hp, by simp⟩
  rcases List.mem_append.1 hp' with hp' | hp'
  · exact ((List.pairwise_append.1 hsort).2.2 p hp' q (by simp)).le
  · rw [List.mem_singleton.1 hp']

theorem mark_of_state {i : Invocation} {e : EventId} (hfinal : i.final = i.state)
    (hstate : i.state ≠ .DONE) (hevent : i.item.event = some e) :
    ∃ status, i.mark = some (e, .failed status) := by
  rcases hs : i.state with _ | _ | _
  · exact absurd hs hstate
  · exact ⟨CommEvent.SEND_FAILURE, by simp [Invocation.mark, hevent, hfinal, hs]⟩
  · exact ⟨CommEvent.STAGE_CLEANUP, by simp [Invocation.mark, hevent, hfinal, hs]⟩

end Sending

open Sending in
/-- Where each attempt behind a failed send is refused, no byte of a later vector is written, and
the event of the failed message is never marked as sent, and failed once the connection is gone. -/
theorem failed_send_stops (files : Files) {steps : List SendStep} {s : Sending}
    (hrun : (sending files).run {} steps = some s)
    (hstop : (sending files).Meets StopsAfterError {} steps) :
    ∀ p ∈ s.broken, (∀ c ∈ s.chunks, c.bytes ≠ [] → c.pos ≤ p.pos) ∧
      ∀ q e, s.carrier p.batch = some q → q.event = some e →
        (∀ i ∈ s.invoked, i.item.pos = q.pos → ∀ e', i.mark ≠ some (e', .sent)) ∧
        (s.deleted = true → ∃ i ∈ s.invoked, i.item.pos = q.pos ∧
          ∃ status, i.mark = some (e, .failed status)) := by
  have hstep : ∀ s l t, s.InOrder files ∧ s.Halted → StopsAfterError s l →
      (sending files).step s l = some t → t.InOrder files ∧ t.Halted := fun s l t hs hc h =>
    ⟨inOrder_step hs.1 h,
      halted_step hs.2 (hs.1.2.1 (sending_alive h)) hc (sendMove_of_step h)⟩
  obtain ⟨⟨-, -, hacc⟩, hhalt⟩ := (sending files).run_inv hstep steps
    ⟨inOrder_start files, halted_of_unbroken rfl (by simp)⟩ hstop hrun
  intro p hp
  refine ⟨hhalt.unwritten p hp, fun q e hq he => ?_⟩
  obtain ⟨hqmem, hle⟩ := hacc.carrier_last (hhalt.posted p hp) hq
  have hfail : ∀ i ∈ s.invoked, i.item.pos = q.pos → i.state ≠ .DONE := by
    intro i hi hpos hd
    have := hhalt.undone p hp i hi hd
    have hle' : p.pos ≤ q.pos := hle
    omega
  refine ⟨fun i hi hpos e' hm => ?_, fun hd => ?_⟩
  · have hst := hfail i hi hpos
    rcases he' : i.item.event with _ | e''
    · simp [Invocation.mark, he'] at hm
    · obtain ⟨status, hmark⟩ := mark_of_state (hhalt.final i hi hst) hst he'
      rw [hmark] at hm
      simp at hm
  · obtain ⟨i, hi, hiq⟩ := List.mem_map.1 ((hacc.once hd).mem_iff.2 hqmem)
    have hpos : i.item.unsent.pos = q.pos := congrArg Posted.pos hiq
    have hevent : i.item.unsent.event = some e := (congrArg Posted.event hiq).trans he
    have hst := hfail i hi hpos
    exact ⟨i, hi, hpos, mark_of_state (hhalt.final i hi hst) hst hevent⟩

/-- The header of a message, and behind it the attachment that carries the event. -/
def headed : List FreshVec := [oneByte, withFile]

/-- The header is taken up, and `send` reports an error for it. -/
def headerFails : List SendStep :=
  [.postSend headed, .socketWritable, .epollWait, .setReadyToSend, .pushSock, .sendData, .lock,
    .test, .next, .unlock, .lock, .test, .loop, .error, .complete [], .endCallback, .unlock]

instance (s : Sending) : Decidable s.Refused := inferInstanceAs (Decidable (_ ∨ _))

instance (s : Sending) (l : SendStep) : Decidable (s.StopsAfterError l) :=
  inferInstanceAs (Decidable (_ → _ → _))

theorem failed_send_stops_header : ∃ s p q, (sending fun _ => none).run {}
    (headerFails ++ [.setCleaning, .cleanup .ON_ERROR]) = some s ∧ p ∈ s.broken ∧
      s.carrier p.batch = some q ∧ (∀ c ∈ s.chunks, c.bytes ≠ [] → c.pos ≤ p.pos) ∧
      ∃ i ∈ s.invoked, i.item.pos = q.pos ∧ ∃ status, i.mark = some (0, .failed status) := by
  obtain ⟨s, p, q, hrun, hp, hq, he, hd⟩ : ∃ s p q, (sending fun _ => none).run {}
      (headerFails ++ [.setCleaning, .cleanup .ON_ERROR]) = some s ∧ p ∈ s.broken ∧
      s.carrier p.batch = some q ∧ q.event = some 0 ∧ s.deleted = true :=
    ⟨_, _, _, rfl, List.mem_cons_self, rfl, rfl, rfl⟩
  obtain ⟨hwritten, hevent⟩ := failed_send_stops _ hrun (by decide) p hp
  exact ⟨s, p, q, hrun, hp, hq, hwritten, (hevent q 0 hq he).2 hd⟩

/-- The next call sends the attachment of the failed header, and its event is marked as sent. -/
theorem failed_send_goes_on : ∃ s, (sending fun _ => some fun _ => 2).run {}
    (headerFails ++ [.sendProgress, .lock, .test, .next, .unlock, .lock, .test, .loop, .sent 1,
      .loop, .complete [some 1]]) = some s ∧
      ∃ p ∈ s.broken, (∃ c ∈ s.chunks, c.bytes ≠ [] ∧ p.pos < c.pos) ∧
        ∃ q, s.carrier p.batch = some q ∧ ∃ i ∈ s.invoked, i.item.pos = q.pos ∧
          i.mark = some (0, .sent) := by
  refine ⟨_, rfl, _, List.mem_cons_self,
    ⟨_, List.mem_cons_of_mem _ List.mem_cons_self, by decide, by decide⟩, _, rfl, ?_⟩
  exact ⟨_, List.mem_cons_of_mem _ List.mem_cons_self, rfl, rfl⟩

end Longda
