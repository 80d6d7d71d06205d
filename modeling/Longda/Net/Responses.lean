import Longda.Net.FrameStream

/-!
# Responses taken by a client

A client keeps each event that waits for a response under the id of its request. A response with
nothing attached takes the event of its id out of the map and completes it; a response whose id is
not in the map, because nothing was asked or it has been answered, is dropped. So whatever responses
arrive, in whatever order and however often, each event completes at most once, with the status of
the first response to its id (`Responded`).
-/

namespace Longda

open Lib

/-- A response on the wire with nothing attached. -/
structure RspFrame (env : Env) where
  hdr : PackHeader
  msg : List UInt8
  mId : UInt64
  mStatus : Int32
  rpc : hdr.isRpc = true
  msgLen : hdr.mMsgLen.toNat = msg.length
  attLen : hdr.mAttLen = 0
  fileLen : hdr.mFileLen = 0
  parsed : env.deserialize msg (UInt64.ofNat msg.length).toUInt32.toInt32
    = some (.response mId mStatus)

namespace RspFrame

variable {env : Env} (f : RspFrame env)

def pieces : List (List UInt8) := [f.hdr.encode, f.msg]

/-- The id the event is looked up by. -/
def id : UInt32 := f.mId.toUInt32

end RspFrame

/-- The event with the response. -/
def CommEvent.answered {env : Env} (e : CommEvent) (f : RspFrame env) : CommEvent :=
  { e with
    status := f.mStatus
    response := { e.response with message := some (.response f.mId f.mStatus) } }

/-- Nothing is completed, and the events wait as they did. -/
structure Still (w t : World) : Prop where
  calls : t.calls = w.calls
  events : t.events = w.events
  eventMap : t.mSendEventMap = w.mSendEventMap

/-- What a response does. -/
inductive Took {env : Env} (w : World) (f : RspFrame env) (t : World) : Prop
  | dropped (hid : w.mSendEventMap.lookup f.id = none)
    (calls : t.calls = w.calls ++ [.prepare2Drain 0]) (events : t.events = w.events)
    (eventMap : t.mSendEventMap = w.mSendEventMap) : Took w f t
  | completed (cev : EventId) (hid : w.mSendEventMap.lookup f.id = some cev)
    (calls : t.calls = w.calls ++ [.completeEvent cev f.mStatus])
    (events : t.events = Function.update w.events cev ((w.events cev).answered f))
    (eventMap : t.mSendEventMap = w.mSendEventMap.filter (·.1 != f.id)) : Took w f t

/-- Each event in the map is one of the client's, and is there once. -/
structure Asking (w : World) : Prop where
  ids : (w.mSendEventMap.map Prod.fst).Nodup
  nodup : (w.mSendEventMap.map Prod.snd).Nodup
  client : ∀ p ∈ w.mSendEventMap, (w.events p.2).serverGen = false

/-! ## One response -/

section Frame

variable {env : Env} {f : RspFrame env} {w t : World} (hmem : ∀ k, env.mem k = true)

theorem Asking.took (hw : Asking w) (h : Took w f t) : Asking t := by
  cases h with
  | dropped hid calls events eventMap =>
    exact ⟨eventMap ▸ hw.ids, eventMap ▸ hw.nodup, by rw [eventMap, events]; exact hw.client⟩
  | completed cev hid calls events eventMap =>
    have hsub : t.mSendEventMap.Sublist w.mSendEventMap := eventMap ▸ List.filter_sublist
    refine ⟨hw.ids.sublist (hsub.map _), hw.nodup.sublist (hsub.map _), fun p hp => ?_⟩
    have hclient := hw.client p (hsub.subset hp)
    rw [events]
    by_cases hc : p.2 = cev
    · rw [hc, Function.update_self, CommEvent.answered]
      exact hc ▸ hclient
    · rwa [Function.update_of_ne hc]

theorem mem_of_lookup {m : List (UInt32 × EventId)} {id : UInt32} {cev : EventId}
    (h : m.lookup id = some cev) : (id, cev) ∈ m := by
  obtain ⟨l, r, rfl, -⟩ := List.lookup_eq_some_iff.1 h
  simp

/-- On the client the event completes with the status of its response. -/
theorem ends_eventDone_client {cev : EventId} {e : CommEvent} (he : w.events cev = e)
    (hgen : e.serverGen = false) (hstatus : e.status ≠ CommEvent.PENDING)
    (hmsg : e.response.message = some (.response f.mId f.mStatus)) :
    Ends (eventDone (some cev)) w (fun _ t => { w with
      msgIn := w.msgIn + 1
      events := Function.update w.events cev { e with status := f.mStatus }
      calls := w.calls ++ [.completeEvent cev f.mStatus] } = t) fun _ _ => False := by
  subst he
  simp only [eventDone, ends_bind, ends_modify, ends_getEvent, hgen, Bool.false_eq_true, if_false,
    hstatus, hmsg, ends_completeEvent]

include hmem

theorem deliver_response (hw : Asking w) : ∃ t, (deliver env).step (w.headed f.hdr) f.msg = some t
    ∧ Waiting t ∧ Took w f t := by
  rw [deliver_exists_iff env (w := w.headed f.hdr) (q := []) rfl f.msgLen.symm]
  have hrenew : ((prepareRecvHeader.renew f.msg.length).fill f.msg).renew HDR_LEN
      = prepareRecvHeader := renew_header rfl
  simp only [recvCallback, ends_bind, ends_getNextRecv, World.headed, recvMessageCb,
    IoVec.fill_base, IoVec.fill_size, IoVec.renew_size, f.msgLen, f.parsed, recvRspMsg,
    ends_getAndRmEvent]
  rcases hid : w.mSendEventMap.lookup f.mId.toUInt32 with _ | cev
  · have hleft : ({ attLen := f.hdr.mAttLen.toUInt32, fileLen := f.hdr.mFileLen } :
        CbParam).leftSize = 0 := by
      rw [f.attLen, f.fileLen]
      rfl
    have hpos : ¬ (0 : UInt64) > 0 := by decide
    have hfilter : w.mSendEventMap.filter (fun p => p.1 != f.mId.toUInt32) = w.mSendEventMap := by
      refine List.filter_eq_self.2 fun p hp => ?_
      rw [bne_comm]
      exact List.lookup_eq_none_iff.1 hid p hp
    simp only [ends_pure, ends_bind, ends_getCb, ends_ite, ne_eq, reduceCtorEq, not_false_eq_true,
      if_true, prepare2Drain, hleft, hpos, if_false, ends_call, recvErrCb, ends_modifyCb, hmem,
      repostIoVec, ends_newChar, ends_postRecv, ends_setNextRecv, hrenew, List.nil_append]
    exact ⟨⟨rfl, rfl⟩, .dropped hid rfl rfl hfilter⟩
  · have hatt : ¬ f.hdr.mAttLen.toUInt32 > 0 := by
      rw [f.attLen]
      decide
    have hfile : ¬ f.hdr.mFileLen > 0 := by
      rw [f.fileLen]
      decide
    have hcev : ((none : Option EventId) == none) = true := rfl
    have hclient := hw.client (f.id, cev) (mem_of_lookup hid)
    have hgen : ((w.events cev).takeResponse f.mId f.mStatus).serverGen = false := hclient
    simp only [recvRspEvent, ends_bind, ends_getCb, ends_ASSERT, hcev, if_true, ends_modifyCb,
      ends_modifyEvent, hatt, hfile, if_false, ends_pure, checkEventReady]
    refine (ends_eventDone_client (Function.update_self _ _ _) hgen
      (CommEvent.takeResponse_status _ _ _) rfl).mono ?_ fun _ _ => False.elim
    rintro _ _ rfl
    simp only [ends_bind, ends_setNextRecv, repostIoVec, ends_newChar, hmem, if_true, ends_postRecv,
      hrenew, ends_pure, ne_eq, not_true_eq_false, if_false, List.nil_append]
    refine ⟨⟨rfl, rfl⟩, .completed cev hid rfl ?_ rfl⟩
    simp only [Function.update_idem]
    rfl

theorem leads_response (f : RspFrame env) (hw : Waiting w ∧ Asking w) :
    ∃ t, (deliver env).Leads (Still w) w f.pieces t ∧ (Waiting t ∧ Asking t) ∧ Took w f t := by
  obtain ⟨t, hstep, ht, htook⟩ := deliver_response (f := f) hmem hw.2
  refine ⟨t, ⟨⟨rfl, rfl, rfl⟩, _, deliver_header hmem hw.1 f.rpc, ?_⟩, ⟨ht, hw.2.took htook⟩, htook⟩
  exact ⟨⟨rfl, rfl, rfl⟩, t, hstep, rfl⟩

end Frame

/-- A client takes responses, where its buffers are granted. -/
def responseProtocol {env : Env} (hmem : ∀ k, env.mem k = true) :
    FrameProtocol env (RspFrame env) where
  pieces := RspFrame.pieces
  Between w := Waiting w ∧ Asking w
  waiting := And.left
  Within := Still
  within_refl _ := ⟨rfl, rfl, rfl⟩
  Taken := Took
  leads _ f hw := leads_response hmem f hw

/-! ## Many responses -/

/-- The calls that complete the event. -/
def World.completions (w : World) (cev : EventId) : List Call :=
  w.calls.filter fun c => match c with
    | .completeEvent e _ => e == cev
    | _ => false

/-- What has become of the events when the responses `done` have been taken. One that waits under an
id completes once with the first response to the id, and waits where there is none; no other event
completes. -/
structure Responded {env : Env} (w : World) (done : List (RspFrame env)) (t : World) : Prop where
  outstanding : ∀ p ∈ w.mSendEventMap, match done.find? (·.id == p.1) with
    | some f => t.completions p.2 = w.completions p.2 ++ [.completeEvent p.2 f.mStatus]
      ∧ t.events p.2 = (w.events p.2).answered f ∧ p ∉ t.mSendEventMap
    | none => t.completions p.2 = w.completions p.2 ∧ t.events p.2 = w.events p.2
      ∧ p ∈ t.mSendEventMap
  others : ∀ c ∉ w.mSendEventMap.map Prod.snd,
    t.completions c = w.completions c ∧ t.events c = w.events c
  kept : t.mSendEventMap.Sublist w.mSendEventMap

section Answers

variable {env : Env} {w v u t : World} {f : RspFrame env} {fs : List (RspFrame env)}

theorem Responded.of_still (h : Still w t) : Responded w ([] : List (RspFrame env)) t where
  outstanding p hp := ⟨by simp only [World.completions, h.calls], by rw [h.events],
    h.eventMap ▸ hp⟩
  others c _ := ⟨by simp only [World.completions, h.calls], by rw [h.events]⟩
  kept := h.eventMap ▸ List.Sublist.refl _

/-- A response before the others. -/
theorem Responded.cons (hw : Asking w) (h : Took w f v) (ht : Responded v fs t) :
    Responded w (f :: fs) t := by
  cases h with
  | dropped hid calls events eventMap =>
    have hcompl : ∀ c, v.completions c = w.completions c := fun c => by
      simp [World.completions, calls]
    refine ⟨fun p hp => ?_, fun c hc => ?_, eventMap ▸ ht.kept⟩
    · have hne : (f.id == p.1) = false := by
        simpa using List.lookup_eq_none_iff.1 hid p hp
      have := ht.outstanding p (eventMap ▸ hp)
      rw [List.find?_cons_of_neg (by simp [hne])]
      rwa [hcompl, events] at this
    · have := ht.others c (eventMap ▸ hc)
      rwa [hcompl, events] at this
  | completed cev hid calls events eventMap =>
    have hmem := mem_of_lookup hid
    have hcompl : ∀ c, v.completions c = w.completions c ++
        if cev = c then [.completeEvent c f.mStatus] else [] := fun c => by
      by_cases hc : cev = c <;> simp [World.completions, calls, hc]
    have hsub : v.mSendEventMap.Sublist w.mSendEventMap := eventMap ▸ List.filter_sublist
    have hleft : ∀ p ∈ w.mSendEventMap, p ∈ v.mSendEventMap ↔ p.1 ≠ f.id := fun p hp => by
      simp [eventMap, hp]
    have hgone : cev ∉ v.mSendEventMap.map Prod.snd := by
      intro hc
      obtain ⟨p, hp, rfl⟩ := List.mem_map.1 hc
      have he := List.inj_on_of_nodup_map hw.nodup (hsub.subset hp) hmem rfl
      exact (hleft p (hsub.subset hp)).1 hp (by rw [he])
    refine ⟨fun p hp => ?_, fun c hc => ?_, ht.kept.trans hsub⟩
    · by_cases hid' : p.1 = f.id
      · -- the event of this response, which no later one finds
        obtain rfl : p = (f.id, cev) := List.inj_on_of_nodup_map hw.ids hp hmem hid'
        obtain ⟨hcalls, hevent⟩ := ht.others cev hgone
        rw [List.find?_cons_of_pos (by simp)]
        refine ⟨?_, ?_, fun hp' => (hleft _ hmem).1 (ht.kept.subset hp') rfl⟩
        · simp [hcalls, hcompl]
        · simp [hevent, events]
      · have hne : cev ≠ p.2 := fun he => hid' (by
          rw [List.inj_on_of_nodup_map hw.nodup hp hmem he.symm])
        have := ht.outstanding p ((hleft p hp).2 hid')
        rw [List.find?_cons_of_neg (by simpa using Ne.symm hid')]
        rwa [hcompl, if_neg hne, List.append_nil, events, Function.update_of_ne hne.symm] at this
    · have hne : cev ≠ c := fun he => hc (he ▸ List.mem_map_of_mem hmem)
      have := ht.others c fun h => hc ((hsub.map _).subset h)
      rwa [hcompl, if_neg hne, List.append_nil, events, Function.update_of_ne hne.symm] at this

/-- Whatever responses arrive, in whatever order and however often. -/
theorem Responded.of_rounds (hw : Asking w) (h : Machine.Rounds Took w fs u) (ht : Still u t) :
    Responded w fs t := by
  induction h with
  | nil => exact .of_still ht
  | cons hf _ ih => exact .cons hw hf (ih (hw.took hf) ht)

end Answers

end Longda
