import Longda.Net.EndToEnd
import Longda.Net.RecvReady
import Longda.Net.SendReady

/-!
# Two ends at rest

A sender posts its last vector and puts the socket into the queue of its send thread. Until the
vectors are sent there is then always a call of `sendProgress` under way or to come, or the socket
is full (`Pursued`), so a sender at rest has sent all it posted (`sent_at_rest`). Together with the
receive threads at rest this makes of what two ends do at any time (`frames_end_to_end`) what they
have done in the end: each request posted has been handed over once (`requests_settled`), and each
event that waited for one of the responses posted has completed once (`responses_settled`).
-/

namespace Longda

open Lib

namespace Sending

/-- Nobody has anything to do for the connection, and the socket is not full. -/
structure AtRest (s : Sending) : Prop where
  writable : s.writable = true
  edge : s.edge = false
  waker : s.waker = .idle
  sockQ : s.sockQ = 0
  waiting : s.waiting = 0
  holder : s.holder = none

/-- There is a call of `sendProgress` to come, or the socket is full. -/
def Called (s : Sending) : Prop :=
  s.writable = false ∨ s.edge = true ∨ s.waker ≠ .idle ∨ 0 < s.sockQ ∨ 0 < s.waiting

/-- A callback that is told of a failure is of a vector that failed. -/
def Failing (s : Sending) : Prop :=
  ∀ vs, s.holder = some (.callback vs) → vs ≠ .DONE → s.failed = true

/-- All is sent, or will be. -/
def Pursued (s : Sending) : Prop :=
  s.mCleaning = false → s.failed = false → s.mCurSendBlock = none ∧ s.mSendQ = [] ∨ s.Called
    ∨ ∃ stage, s.holder = some stage ∧ stage ≠ .leave

variable {s t : Sending} {files : Files} {l : SendStep}

theorem failing_step (hs : s.Failing) (h : SendMove files s l t) : t.Failing := by
  cases h with
  | postSend | prepareSend | sendData | sendProgress | setCleaning | cleanup | socketFull
  | socketWritable | epollWait | setReadyToSend | pushSock => exact hs
  | lock | unready | noVec | enter | done | refuse | attempt | sent | eagain | error | clearReady
  | empty | take | goRound | goOut =>
    intro vs' h
    cases h
  | @complete p vs final bytes err answers hholder hcur hfile =>
    intro vs' h hne
    obtain rfl : vs = vs' := by simpa [invoke, atStage] using h
    simp [invoke, hne]
  | endCallback hholder =>
    intro vs' h
    simp only [atStage] at h
    split_ifs at h <;> cases h

theorem pursued_step (hs : s.Pursued) (hstaged : s.Staged) (hawake : s.Awake) (hfail : s.Failing)
    (hpost : ∀ vecs, l ≠ .postSend vecs) (h : SendMove files s l t) : t.Pursued := by
  have hwake : s.mCleaning = false → s.mReadyToSend = false ∨ s.holder = some .full →
      s.writable = false ∨ s.edge = true ∨ s.waker ≠ .idle := by
    intro hc h
    refine (hawake hc h).imp_right (Or.imp_right fun hk => ?_)
    rw [hk]
    simp
  intro hclean hfailed
  cases h with
  | postSend vecs => exact absurd rfl (hpost vecs)
  | prepareSend => exact .inr (.inl (.inr (.inr (.inr (.inl (Nat.succ_pos _))))))
  | sendData =>
    refine .inr (.inl (.inr (.inr (.inr (.inr ?_)))))
    change 0 < if s.mCleaning then s.waiting else s.waiting + 1
    rw [if_neg (by simpa using hclean)]
    exact Nat.succ_pos _
  | sendProgress | goRound => exact .inr (.inl (.inr (.inr (.inr (.inr (Nat.succ_pos _))))))
  | unready hholder hflag =>
    rcases hwake hclean (.inl hflag) with h | h | h
    · exact .inr (.inl (.inl h))
    · exact .inr (.inl (.inr (.inl h)))
    · exact .inr (.inl (.inr (.inr (.inl h))))
  | clearReady hholder =>
    rcases hwake hclean (.inr hholder) with h | h | h
    · exact .inr (.inl (.inl h))
    · exact .inr (.inl (.inr (.inl h)))
    · exact .inr (.inl (.inr (.inr (.inl h))))
  | lock | noVec | enter | done | refuse | attempt | sent | eagain | error | complete | take =>
    exact .inr (.inr ⟨_, rfl, by simp⟩)
  | @endCallback vs hholder =>
    by_cases hvs : vs = .DONE
    · refine .inr (.inr ⟨.next, ?_, by simp⟩)
      simp [atStage, hvs]
    · exact absurd ((hfail vs hholder hvs).symm.trans hfailed) (by simp)
  | empty hholder hq => exact .inl ⟨hstaged.next hholder, hq⟩
  | goOut hholder =>
    rcases hs hclean hfailed with h | h | ⟨stage, h, hne⟩
    · exact .inl h
    · exact .inr (.inl h)
    · exact absurd (Option.some.inj (h.symm.trans hholder)) hne
  | setCleaning => cases hclean
  | cleanup how hc => exact absurd (hc.symm.trans hclean) (by simp)
  | socketFull => exact .inr (.inl (.inl rfl))
  | socketWritable => exact .inr (.inl (.inr (.inl rfl)))
  | epollWait =>
    refine .inr (.inl (.inr (.inr (.inl ?_))))
    change (if s.mCleaning then Waker.idle else .setReady) ≠ .idle
    rw [if_neg (by simpa using hclean)]
    simp
  | setReadyToSend => exact .inr (.inl (.inr (.inr (.inl (by simp)))))
  | pushSock => exact .inr (.inl (.inr (.inr (.inr (.inl (Nat.succ_pos _))))))

theorem Pursued.of_atRest (hs : s.Pursued) (hrest : s.AtRest) (hclean : s.mCleaning = false)
    (hfailed : s.failed = false) : s.mCurSendBlock = none ∧ s.mSendQ = [] := by
  rcases hs hclean hfailed with h | (h | h | h | h | h) | ⟨stage, h, -⟩
  · exact h
  · exact absurd (h.symm.trans hrest.writable) (by simp)
  · exact absurd (h.symm.trans hrest.edge) (by simp)
  · exact absurd hrest.waker h
  · exact absurd hrest.sockQ (Nat.ne_of_gt h)
  · exact absurd hrest.waiting (Nat.ne_of_gt h)
  · exact absurd (h.symm.trans hrest.holder) (by simp)

/-- What is written once every vector has been called back. -/
theorem Live.written_all (hs : s.Live files) (hcur : s.mCurSendBlock = none) (hq : s.mSendQ = [])
    (hfailed : s.failed = false) : s.written = wire files (s.posted.map Posted.vec) := by
  have horder : s.posted = (s.invoked.map Invocation.item).map Posted.unsent := by
    rw [← hs.order, lineup, hcur, hq, Option.toList_none, List.append_nil, List.append_nil]
  have hwired := hs.wired hfailed
  rw [hcur, Option.toList_none, List.flatMap_nil, List.append_nil] at hwired
  rw [hwired, horder, wire_unsent, List.map_map]
  rfl

/-- A sender that put the socket into the queue behind its last vector, and where the flag was never
set between an `EAGAIN` and its clearing, has sent everything when it is at rest. -/
theorem sent_at_rest {before after : List SendStep}
    (hrun : (sending files).run {} (before ++ .prepareSend :: after) = some s)
    (hflag : (sending files).Meets FlagInOrder {} (before ++ .prepareSend :: after))
    (hposts : ∀ l ∈ after, ∀ vecs, l ≠ .postSend vecs) (hlive : s.deleted = false)
    (hclean : s.mCleaning = false) (hfailed : s.failed = false) (hrest : s.AtRest) :
    s.written = wire files (s.posted.map Posted.vec) := by
  obtain ⟨hflag, hflag'⟩ := (sending files).meets_append.1 hflag
  rw [Machine.run_append, Option.bind_eq_some_iff] at hrun
  obtain ⟨u, hu, hrun⟩ := hrun
  obtain ⟨-, hflag'⟩ := hflag' u hu
  rw [Machine.run_cons, Option.bind_eq_some_iff] at hrun
  obtain ⟨v, hv, hrun⟩ := hrun
  have hkeep : ∀ s l t, s.InOrder files ∧ s.Awake ∧ s.Failing → s.FlagInOrder l →
      (sending files).step s l = some t → t.InOrder files ∧ t.Awake ∧ t.Failing :=
    fun s l t hs hc h => ⟨inOrder_step hs.1 h, awake_step hs.2.1 hc (sendMove_of_step h),
      failing_step hs.2.2 (sendMove_of_step h)⟩
  have hstart : InOrder files {} ∧ Awake {} ∧ Failing {} :=
    ⟨inOrder_start files, fun _ _ => .inl rfl, fun _ h => absurd h (by simp)⟩
  have hinv := (sending files).run_inv hkeep before hstart hflag hu
  have hprepare : u.FlagInOrder .prepareSend := by
    intro h
    cases h
  have hinv' := hkeep u _ v hinv hprepare hv
  have hpursued : v.Pursued := by
    obtain rfl : { u with sockQ := u.sockQ + 1 } = v := by
      cases sendMove_of_step hv
      rfl
    exact fun _ _ => .inr (.inl (.inr (.inr (.inr (.inl (Nat.succ_pos _))))))
  obtain ⟨⟨⟨hstaged, hall, -⟩, -, -⟩, hend⟩ := (sending files).run_inv
    (I := fun s => (s.InOrder files ∧ s.Awake ∧ s.Failing) ∧ s.Pursued)
    (fun s l t hs hc h => ⟨hkeep s l t hs.1 hc.1 h, pursued_step hs.2 hs.1.1.1 hs.1.2.1 hs.1.2.2
      hc.2 (sendMove_of_step h)⟩) after ⟨hinv', hpursued⟩ ((hflag' v hv).and_forall _ hposts) hrun
  obtain ⟨hcur, hq⟩ := hend.of_atRest hrest hclean hfailed
  exact (hall hlive).written_all hcur hq hfailed

end Sending

/-! ## Two ends -/

/-- A connection before a stream of which nothing has arrived. -/
def World.recvSide (w : World) (stream : List UInt8) : RecvSide Unit :=
  .start (w.mRecvQ.map IoVec.fresh) stream

/-- Threads at rest have exhausted the stream, if all of it has arrived and it was not empty. -/
theorem RecvSide.AtRest.exhausted {callback : Posting Unit} {q : List (FreshRecv Unit)}
    {stream : List UInt8} {ls : List PollStep} {r : RecvSide Unit}
    (hrun : (recvSide callback).run (.start q stream) ls = some r) (hr : r.broken = false)
    (harrived : r.coming = []) (hrest : r.AtRest) (hne : stream ≠ []) : r.whole.Exhausted := by
  have hatt := attended_of_run hrun hr
  rcases hatt.of_atRest hrest with hun | hnone
  · have hall : r.unread ++ r.coming = [] := by rw [hun, harrived, List.append_nil]
    rcases hatt.rested hrest.stage with (hnone | hp) | ⟨hcur, hdone⟩
    · exact .inl hnone
    · exact .inr ⟨hall, hp⟩
    · have hsplit := (sound_of_run hrun hr).split
      simp only [RecvSide.whole, Receiver.filling, Filling.received, hcur, hdone, hall] at hsplit
      exact absurd hsplit.symm hne
  · exact .inl hnone

namespace FrameProtocol

variable {env : Env} {φ : Type*} {P : FrameProtocol env φ} {w : World}

/-- The frames taken are those of all the batches, when both ends are at rest. -/
theorem frames_settled {files : Files} {β : Type*} {batch : β → List SendVec}
    {Carried : β → φ → Prop} (hframes : P.Frames files batch Carried)
    (hbytes : ∀ b, Longda.wire files (batch b) ≠ []) (bs : List β) {before after : List SendStep}
    {s : Sending} (hsend : (sending files).run {} (before ++ .prepareSend :: after) = some s)
    (hflag : (sending files).Meets Sending.FlagInOrder {} (before ++ .prepareSend :: after))
    (hposts : ∀ l ∈ after, ∀ vecs, l ≠ .postSend vecs) (hlive : s.deleted = false)
    (hclean : s.mCleaning = false) (hfailed : s.failed = false) (hsent : s.AtRest)
    (hposted : s.posted.map Posted.vec = bs.flatMap batch) (hw : P.Between w)
    {pollSteps : List PollStep} {r : RecvSide Unit}
    (hrecv : (recvSide (w.posting env)).run (w.recvSide s.written) pollSteps = some r)
    (hr : r.broken = false) (harrived : r.coming = []) (hrest : r.AtRest) :
    ∃ fs t, List.Forall₂ Carried bs fs ∧ w.after env r.completed = some t ∧ P.Reached w fs t := by
  have hwritten : s.written = Longda.wire files (bs.flatMap batch) :=
    hposted ▸ Sending.sent_at_rest hsend hflag hposts hlive hclean hfailed hsent
  obtain ⟨ks, hks⟩ := receiving_of_recvSide hrecv
  obtain ⟨done, todo, fs, t, rfl, hfs, hafter, hreached, -, hend⟩ :=
    frames_end_to_end hframes bs hsend hfailed hposted (List.prefix_refl _) hw hks hr
  -- the next batch would be all there
  have htodo : todo = [] := by
    rcases todo with _ | ⟨b, todo⟩
    · rfl
    have hpre : Longda.wire files ((done ++ [b]).flatMap batch) <+: s.written := by
      have hcons : (done ++ b :: todo).flatMap batch
          = (done ++ [b]).flatMap batch ++ todo.flatMap batch := by
        rw [List.append_cons, List.flatMap_append]
      rw [hwritten, hcons, Sending.wire_append]
      exact List.prefix_append _ _
    have hne : s.written ≠ [] := by
      intro hnil
      rw [hnil, List.prefix_nil, List.flatMap_append, Sending.wire_append, List.append_eq_nil_iff,
        List.flatMap_singleton] at hpre
      exact hbytes b hpre.2
    exact absurd hpre (hend (RecvSide.AtRest.exhausted hrecv hr harrived hrest hne) b rfl)
  rw [htodo, List.append_nil]
  exact ⟨fs, t, hfs, hafter, hreached⟩

end FrameProtocol

section Settled

variable {env : Env} {files : Files} {w : World} {before after : List SendStep} {s : Sending}
  {pollSteps : List PollStep} {r : RecvSide Unit} {newRequest : Request} {newResponse : Response}

theorem Outgoing.wire_ne_nil (hcodec : env.deserialize = deserializeWire newRequest newResponse)
    (q : Outgoing env files) : wire files q.batch ≠ [] := by
  obtain ⟨f, hf⟩ := Outgoing.exists_frame hcodec q
  rw [← hf.wire]
  intro hnil
  have hlen := congrArg List.length hnil
  simp [ReqFrame.wire] at hlen
  exact absurd hlen.1 (by decide)

theorem Reply.wire_ne_nil (hcodec : env.deserialize = deserializeWire newRequest newResponse)
    (q : Reply files) : wire files q.batch ≠ [] := by
  obtain ⟨f, hf⟩ := Reply.exists_frame hcodec q
  rw [← hf.wire]
  intro hnil
  have hlen := congrArg List.length hnil
  simp at hlen
  exact absurd hlen.1 (by decide)

/-- A client has posted requests and put the socket into the queue of its send thread behind the
last, all that was written has arrived, and the threads of both ends have come to rest on a
connection that did not fail: then the server has handed every request to its next stage, each once,
in the order they were posted, with the message, the attachment and the file they were posted with.
-/
theorem requests_settled (hcodec : env.deserialize = deserializeWire newRequest newResponse)
    (hmem : ∀ k, env.mem k = true) (hdisk : ∀ k, env.disk k = .written)
    (qs : List (Outgoing env files))
    (hsend : (sending files).run {} (before ++ .prepareSend :: after) = some s)
    (hflag : (sending files).Meets Sending.FlagInOrder {} (before ++ .prepareSend :: after))
    (hposts : ∀ l ∈ after, ∀ vecs, l ≠ .postSend vecs) (hlive : s.deleted = false)
    (hclean : s.mCleaning = false) (hfailed : s.failed = false) (hsent : s.AtRest)
    (hposted : s.posted.map Posted.vec = qs.flatMap Outgoing.batch) (hw : Connected w)
    (hrecv : (recvSide (w.posting env)).run (w.recvSide s.written) pollSteps = some r)
    (hr : r.broken = false) (harrived : r.coming = []) (hrest : r.AtRest) :
    ∃ fs t, List.Forall₂ Outgoing.Carried qs fs ∧ w.after env r.completed = some t
      ∧ Requested w fs t := by
  obtain ⟨fs, t, hfs, hafter, u, hrounds, -, hquiet⟩ := FrameProtocol.frames_settled
    (Outgoing.frames hcodec hmem hdisk) (Outgoing.wire_ne_nil hcodec) qs hsend hflag hposts hlive
    hclean hfailed hsent hposted hw.waiting hrecv hr harrived hrest
  exact ⟨fs, t, hfs, hafter, .of_rounds hrounds hquiet⟩

/-- A server has posted responses, and both ends have come to rest in the same way: then each event
that waited under the id of one of the responses has completed exactly once, with the first of them,
and every other event is as it was. -/
theorem responses_settled (hcodec : env.deserialize = deserializeWire newRequest newResponse)
    (hmem : ∀ k, env.mem k = true) (qs : List (Reply files))
    (hsend : (sending files).run {} (before ++ .prepareSend :: after) = some s)
    (hflag : (sending files).Meets Sending.FlagInOrder {} (before ++ .prepareSend :: after))
    (hposts : ∀ l ∈ after, ∀ vecs, l ≠ .postSend vecs) (hlive : s.deleted = false)
    (hclean : s.mCleaning = false) (hfailed : s.failed = false) (hsent : s.AtRest)
    (hposted : s.posted.map Posted.vec = qs.flatMap Reply.batch) (hw : Waiting w)
    (hasking : Asking w)
    (hrecv : (recvSide (w.posting env)).run (w.recvSide s.written) pollSteps = some r)
    (hr : r.broken = false) (harrived : r.coming = []) (hrest : r.AtRest) :
    ∃ fs : List (RspFrame env), ∃ t, List.Forall₂ Reply.Carried qs fs
      ∧ w.after env r.completed = some t ∧ Responded w fs t := by
  obtain ⟨fs, t, hfs, hafter, u, hrounds, -, hstill⟩ := FrameProtocol.frames_settled
    (Reply.frames hcodec hmem) (Reply.wire_ne_nil hcodec) qs hsend hflag hposts hlive hclean
    hfailed hsent hposted ⟨hw, hasking⟩ hrecv hr harrived hrest
  exact ⟨fs, t, hfs, hafter, .of_rounds hasking hrounds hstill⟩

end Settled

section Samples

/-- What the sender of the vectors does behind `prepareSend`, writing each in the parts. -/
def sendAll (vecs : List (List ℕ × List (Option ℕ))) : List SendStep :=
  [.socketWritable, .epollWait, .setReadyToSend, .pushSock, .sendData, .lock, .test, .next] ++
    vecs.flatMap (fun v => sendVecSteps v.1 v.2) ++
    [.unlock, .sendData, .lock, .test, .next, .unlock]

/-- Vectors are received in the parts. Behind the bytes that are there at first the last part
arrives within the call. -/
def recvAll (first : ℕ) (parts : List (List ℕ)) (last : ℕ) : List PollStep :=
  [.arrive first, .epollWait, .prepareRecv, .recvData 1, .recv .test, .recv .next, .recv .test] ++
    (parts.flatMap recvVecSteps).map .recv ++ [.arrive last] ++
    (recvVecSteps [last]).map .recv ++
    [.recv (.recvNothing .again), .epollWait, .prepareRecv, .recvData 1, .recv .test,
      .recv (.recvNothing .again)]

/-- Whether the receive side has come to rest with all of the stream. -/
def RecvSide.settled {κ : Type*} (r : RecvSide κ) : Bool :=
  !r.broken && r.coming.isEmpty && !r.edge && !r.preparing && r.sockQ == 0 && r.stage == .idle

theorem RecvSide.atRest_of_settled {κ : Type*} {r : RecvSide κ} (h : r.settled = true) :
    r.broken = false ∧ r.coming = [] ∧ r.AtRest := by
  simp only [settled, Bool.and_eq_true, Bool.not_eq_true', List.isEmpty_iff, beq_iff_eq] at h
  obtain ⟨⟨⟨⟨⟨hr, harrived⟩, hedge⟩, hprep⟩, hq⟩, hstage⟩ := h
  exact ⟨hr, harrived, hedge, hprep, hq, hstage⟩

/-- A request with an attachment and a file, and a bare one. -/
theorem requests_settled_two : ∃ s r fs t,
    (sending sampleFiles).run {} ([.postSend [ladenFresh, attachFresh], .postSend [bareFresh]] ++
      .prepareSend :: sendAll [([100, 64], []), ([1], [some 3]), ([164], [])]) = some s
    ∧ (recvSide (sampleWorld.posting wireEnv)).run (sampleWorld.recvSide s.written)
      (recvAll 200 [[32], [132], [1], [3], [30, 2]] 132) = some r
    ∧ List.Forall₂ Outgoing.Carried [ladenOutgoing, bareOutgoing sampleFiles] fs
    ∧ sampleWorld.after wireEnv r.completed = some t ∧ Requested sampleWorld fs t := by
  let qs := [ladenOutgoing, bareOutgoing sampleFiles]
  obtain ⟨s, hsend, hlive, hclean, hfailed, hsent, hposted, hwritten⟩ : ∃ s,
      (sending sampleFiles).run {} ([.postSend [ladenFresh, attachFresh], .postSend [bareFresh]] ++
        .prepareSend :: sendAll [([100, 64], []), ([1], [some 3]), ([164], [])]) = some s
      ∧ s.deleted = false ∧ s.mCleaning = false ∧ s.failed = false ∧ s.AtRest
      ∧ s.posted.map Posted.vec = qs.flatMap Outgoing.batch
      ∧ s.written = wire sampleFiles (qs.flatMap Outgoing.batch) :=
    ⟨_, rfl, rfl, rfl, rfl, ⟨rfl, rfl, rfl, rfl, rfl, rfl⟩, rfl, by decide +kernel⟩
  have hrun : ((recvSide (sampleWorld.posting wireEnv)).run
      (sampleWorld.recvSide (wire sampleFiles (qs.flatMap Outgoing.batch)))
      (recvAll 200 [[32], [132], [1], [3], [30, 2]] 132)).any RecvSide.settled := by
    decide +kernel
  obtain ⟨r, hrecv, hr⟩ := (Option.any_eq_true _ _).1 hrun
  obtain ⟨hbroken, harrived, hrest⟩ := RecvSide.atRest_of_settled hr
  rw [← hwritten] at hrecv
  obtain ⟨fs, t, hfs, hafter, hdone⟩ := @requests_settled wireEnv _ _
    [.postSend [ladenFresh, attachFresh], .postSend [bareFresh]] _ s _ r _ _ rfl (fun _ => rfl)
    (fun _ => rfl) qs hsend (by decide) (by simp [sendAll, sendVecSteps]) hlive hclean hfailed hsent
    hposted connected_sampleWorld hrecv hbroken harrived hrest
  exact ⟨s, r, fs, t, hsend, hrecv, hfs, hafter, hdone⟩

/-- The three responses. -/
theorem responses_settled_three : ∃ s r t,
    (sending fun _ => none).run {} ([.postSend [replyFresh (sampleReply 7 (-2))],
      .postSend [replyFresh (sampleReply 8 0)], .postSend [replyFresh (sampleReply 7 5)]] ++
      .prepareSend :: sendAll [([180], []), ([100, 80], []), ([180], [])]) = some s
    ∧ (recvSide (askingWorld.posting wireEnv)).run (askingWorld.recvSide s.written)
      (recvAll 392 [[32], [148], [32], [148], [32]] 148) = some r
    ∧ askingWorld.after wireEnv r.completed = some t
    ∧ t.completions 0 = [.completeEvent 0 (-2)] ∧ t.completions 1 = [.completeEvent 1 0] := by
  obtain ⟨s, hsend, hlive, hclean, hfailed, hsent, hposted, hwritten⟩ : ∃ s,
      (sending fun _ => none).run {} ([.postSend [replyFresh (sampleReply 7 (-2))],
        .postSend [replyFresh (sampleReply 8 0)], .postSend [replyFresh (sampleReply 7 5)]] ++
        .prepareSend :: sendAll [([180], []), ([100, 80], []), ([180], [])]) = some s
      ∧ s.deleted = false ∧ s.mCleaning = false ∧ s.failed = false ∧ s.AtRest
      ∧ s.posted.map Posted.vec = threeReplies.flatMap Reply.batch
      ∧ s.written = wire (fun _ => none) (threeReplies.flatMap Reply.batch) :=
    ⟨_, rfl, rfl, rfl, rfl, ⟨rfl, rfl, rfl, rfl, rfl, rfl⟩, rfl, by decide +kernel⟩
  have hrun : ((recvSide (askingWorld.posting wireEnv)).run
      (askingWorld.recvSide (wire (fun _ => none) (threeReplies.flatMap Reply.batch)))
      (recvAll 392 [[32], [148], [32], [148], [32]] 148)).any RecvSide.settled := by
    decide +kernel
  obtain ⟨r, hrecv, hr⟩ := (Option.any_eq_true _ _).1 hrun
  obtain ⟨hbroken, harrived, hrest⟩ := RecvSide.atRest_of_settled hr
  rw [← hwritten] at hrecv
  obtain ⟨fs, t, hfs, hafter, hanswered⟩ := @responses_settled wireEnv _ _
    [.postSend [replyFresh (sampleReply 7 (-2))], .postSend [replyFresh (sampleReply 8 0)],
      .postSend [replyFresh (sampleReply 7 5)]] _ s _ r _ _ rfl (fun _ => rfl) threeReplies hsend
    (by decide) (by simp [sendAll, sendVecSteps]) hlive hclean hfailed hsent hposted ⟨rfl, rfl⟩
    asking_askingWorld hrecv hbroken harrived hrest
  exact ⟨s, r, t, hsend, hrecv, hafter, completions_three hfs hanswered⟩

end Samples

end Longda
