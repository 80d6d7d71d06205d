import Longda.Lib.Machine
import Longda.Lib.Slips
import Longda.Net.ConnMgr

/-!
# Requests and their responses

A client numbers its requests with a counter of 32 bits, enters the event of a request in the map of
its connection under that number, and finds it there by the number of the response. `Client` is all
requests of one client over any connections, with the number of each as a slip: a request in use is
one being sent, outstanding, or still to be answered.

The map does not take a second event under a number. While no request gets a number that another
one in use on its connection has, each response finds the event of its own request
(`response_matches`); after `2 ^ 32` requests the counter is back, and an event is not stored.
-/

namespace Longda

open Lib

/-- `mSendEventMap`, in order of insertion. -/
abbrev EventMap := List (UInt32 × EventId)

namespace EventMap

/-- `insert`, which keeps what is there under the number. -/
def addEntry (m : EventMap) (msgId : UInt32) (event : EventId) : EventMap :=
  if (m.lookup msgId).isSome then m else m ++ [(msgId, event)]

def removeEntry (m : EventMap) (msgId : UInt32) : EventMap := m.filter (·.1 != msgId)

theorem lookup_addEntry {m : EventMap} {msgId : UInt32} (h : m.lookup msgId = none)
    (event : EventId) (i : UInt32) :
    (m.addEntry msgId event).lookup i = if i = msgId then some event else m.lookup i := by
  simp only [addEntry, h, Option.isSome_none, Bool.false_eq_true, if_false, List.lookup_append,
    List.lookup_cons, List.lookup_nil]
  by_cases hi : i = msgId
  · rw [hi, h]
    simp
  · rw [if_neg hi, beq_eq_false_iff_ne.2 hi]
    simp

theorem lookup_removeEntry (m : EventMap) (msgId i : UInt32) :
    (m.removeEntry msgId).lookup i = if i = msgId then none else m.lookup i := by
  induction m with
  | nil => simp [removeEntry]
  | cons e m ih =>
    have hcons : removeEntry (e :: m) msgId
        = if e.1 = msgId then removeEntry m msgId else e :: removeEntry m msgId := by
      by_cases h : e.1 = msgId <;> simp [removeEntry, h]
    rw [hcons]
    by_cases he : e.1 = msgId
    · rw [if_pos he, ih]
      split_ifs with hi
      · rfl
      · rw [List.lookup_cons, beq_eq_false_iff_ne.2 (fun h => hi (h.trans he))]
    · rw [if_neg he, List.lookup_cons, List.lookup_cons, ih]
      by_cases hie : i = e.1
      · subst hie
        simp [he]
      · rw [beq_eq_false_iff_ne.2 hie]

end EventMap

/-- A request: its event, its connection and its number. -/
structure SentRequest where
  ev : EventId
  conn : ConnId
  id : UInt32
  deriving DecidableEq

structure Client where
  mSendCounter : UInt32 := 0
  mSendEventMap : ConnId → EventMap := fun _ => []
  nextEvent : EventId := 0
  /-- The events with a number and no connection yet. -/
  numbered : List (EventId × UInt32) := []
  /-- The requests entered and not posted yet. -/
  entered : List SentRequest := []
  /-- The requests whose event is entered and not completed. -/
  outstanding : List SentRequest := []
  /-- The requests posted whose last send callback is to come. -/
  sending : List SentRequest := []
  /-- The requests posted whose response is to come. -/
  unanswered : List SentRequest := []
  /-- The events completed, and the event of the request whose response completed each. -/
  completed : List (EventId × Option EventId) := []

inductive ClientStep where
  /-- `sendRequest` for a new event, as far as the counter. -/
  | number
  | noConn (ev : EventId) (id : UInt32)
  | addEventEntry (ev : EventId) (id : UInt32) (conn : ConnId)
  | cleanupFailedReq (r : SentRequest)
  | postSend (r : SentRequest)
  | sendDone (r : SentRequest)
  | sendFails (r : SentRequest)
  /-- `recvRspMsg` for the response to the request. -/
  | response (r : SentRequest)
  | disconnect (conn : ConnId)

namespace Client

def inUse (s : Client) : List SentRequest := s.entered ++ s.outstanding ++ s.sending ++ s.unanswered

/-- What the map of a connection has under a number. -/
def table (s : Client) (k : ConnId × UInt32) : Option EventId := (s.mSendEventMap k.1).lookup k.2

/-- `removeEventEntry`, and `completeEvent` with a failure. -/
def failRequest (s : Client) (r : SentRequest) : Client :=
  { s with
    mSendEventMap := Function.update s.mSendEventMap r.conn
      ((s.mSendEventMap r.conn).removeEntry r.id)
    outstanding := s.outstanding.filter (· ≠ r)
    completed := s.completed ++ [(r.ev, none)] }

/-- `getAndRmEvent` with the number of the response, and the completion of what it finds. -/
def recvRspMsg (s : Client) (r : SentRequest) : Client :=
  match s.table (r.conn, r.id) with
  | none => s
  | some cev => { s with
    mSendEventMap := Function.update s.mSendEventMap r.conn
      ((s.mSendEventMap r.conn).removeEntry r.id)
    outstanding := s.outstanding.filter (· ≠ ⟨cev, r.conn, r.id⟩)
    completed := s.completed ++ [(cev, some r.ev)] }

def step (s : Client) : ClientStep → Option Client
  | .number => some { s with
    mSendCounter := s.mSendCounter + 1
    nextEvent := s.nextEvent + 1
    numbered := s.numbered ++ [(s.nextEvent, s.mSendCounter)] }
  | .noConn ev id =>
    if (ev, id) ∈ s.numbered then some { s with
      numbered := s.numbered.erase (ev, id), completed := s.completed ++ [(ev, none)] }
    else none
  | .addEventEntry ev id c =>
    if (ev, id) ∈ s.numbered then some { s with
      numbered := s.numbered.erase (ev, id)
      mSendEventMap := Function.update s.mSendEventMap c ((s.mSendEventMap c).addEntry id ev)
      entered := ⟨ev, c, id⟩ :: s.entered
      outstanding := ⟨ev, c, id⟩ :: s.outstanding }
    else none
  | .cleanupFailedReq r =>
    if r ∈ s.entered then some { s.failRequest r with entered := s.entered.erase r } else none
  | .postSend r =>
    if r ∈ s.entered then some { s with
      entered := s.entered.erase r, sending := r :: s.sending, unanswered := r :: s.unanswered }
    else none
  | .sendDone r =>
    if r ∈ s.sending then some { s with sending := s.sending.erase r } else none
  | .sendFails r =>
    if r ∈ s.sending then some { s.failRequest r with sending := s.sending.erase r } else none
  | .response r =>
    if r ∈ s.unanswered then some { s.recvRspMsg r with unanswered := s.unanswered.erase r }
    else none
  -- a connection that is torn down has no sender any more
  | .disconnect c =>
    if ∀ r ∈ s.entered, r.conn ≠ c then some { s with
      mSendEventMap := Function.update s.mSendEventMap c []
      outstanding := s.outstanding.filter (·.conn ≠ c)
      sending := s.sending.filter (·.conn ≠ c)
      unanswered := s.unanswered.filter (·.conn ≠ c)
      completed := s.completed ++ (s.mSendEventMap c).map fun e => (e.2, none) }
    else none

end Client

def client : Machine Client ClientStep where
  step := Client.step

/-- The number and the connection under which an event is entered. -/
def ClientStep.enters : ClientStep → Option (ConnId × UInt32)
  | .addEventEntry _ id c => some (c, id)
  | _ => none

namespace Client

def key (r : SentRequest) : ConnId × UInt32 := (r.conn, r.id)

/-- No event is entered under a number that a request in use on its connection has. -/
def FreshId (s : Client) (l : ClientStep) : Prop := ∀ k ∈ l.enters, ∀ r ∈ s.inUse, key r ≠ k

instance (s : Client) (l : ClientStep) : Decidable (s.FreshId l) :=
  inferInstanceAs (Decidable (∀ k ∈ l.enters, _))

/-- Each outstanding event is stored under the number of its request, the response to a request will
find that event if it is outstanding and else nothing, and no response so far completed another. -/
structure Matched (s : Client) : Prop where
  stored : ∀ r ∈ s.outstanding, s.table (key r) = some r.ev
  found : ∀ r ∈ s.unanswered, s.table (key r) = if r ∈ s.outstanding then some r.ev else none
  own : ∀ e ∈ s.completed, ∀ ev, e.2 = some ev → ev = e.1

/-- The numbers of the requests in use. -/
def slips (s : Client) : List ((ConnId × UInt32) × EventId) := s.inUse.map fun r => (key r, r.ev)

structure Kept (s : Client) : Prop where
  honest : Honest s.table s.slips
  stored : ∀ r ∈ s.outstanding, s.table (key r) = some r.ev
  owned : ∀ k ev, s.table k = some ev → ⟨ev, k.1, k.2⟩ ∈ s.outstanding

variable {s t : Client} {l : ClientStep} {r : SentRequest}

theorem mem_inUse : r ∈ s.inUse ↔
    r ∈ s.entered ∨ r ∈ s.outstanding ∨ r ∈ s.sending ∨ r ∈ s.unanswered := by
  simp [inUse]

theorem inUse_subset (he : t.entered ⊆ s.entered) (ho : t.outstanding ⊆ s.outstanding)
    (hn : t.sending ⊆ s.sending) (hu : t.unanswered ⊆ s.unanswered) :
    ∀ r ∈ t.inUse, r ∈ s.inUse := by
  intro r hr
  rw [mem_inUse] at hr ⊢
  exact hr.imp (fun h => he h) (Or.imp (fun h => ho h) (Or.imp (fun h => hn h) fun h => hu h))

theorem mem_slips (hr : r ∈ s.inUse) : (key r, r.ev) ∈ s.slips := List.mem_map_of_mem hr

theorem slips_subset (h : ∀ r ∈ t.inUse, r ∈ s.inUse) : ∀ n ∈ t.slips, n ∈ s.slips := by
  intro n hn
  obtain ⟨r, hr, rfl⟩ := List.mem_map.1 hn
  exact mem_slips (h r hr)

theorem table_update {c : ConnId} {id : UInt32} {m : EventMap} {e : Option EventId}
    (hm : ∀ i, m.lookup i = if i = id then e else (s.mSendEventMap c).lookup i)
    (h : t.mSendEventMap = Function.update s.mSendEventMap c m) :
    t.table = Function.update s.table (c, id) e := by
  funext ⟨c', i⟩
  simp only [table, h]
  by_cases hc : c' = c
  · subst hc
    rw [Function.update_self, hm]
    by_cases hi : i = id
    · subst hi
      rw [if_pos rfl, Function.update_self]
    · rw [if_neg hi, Function.update_of_ne fun h => hi (congrArg Prod.snd h)]
      rfl
  · rw [Function.update_of_ne hc, Function.update_of_ne fun h => hc (congrArg Prod.fst h)]
    rfl

theorem table_remove {c : ConnId} {id : UInt32} (h : t.mSendEventMap
    = Function.update s.mSendEventMap c ((s.mSendEventMap c).removeEntry id)) :
    t.table = Function.update s.table (c, id) none :=
  table_update (EventMap.lookup_removeEntry _ _) h

theorem table_add {c : ConnId} {id : UInt32} {ev : EventId} (hno : s.table (c, id) = none)
    (h : t.mSendEventMap
      = Function.update s.mSendEventMap c ((s.mSendEventMap c).addEntry id ev)) :
    t.table = Function.update s.table (c, id) (some ev) :=
  table_update (EventMap.lookup_addEntry hno ev) h

/-- A step that leaves the maps and the outstanding events alone. -/
theorem Kept.congr (hs : s.Kept) (htable : t.table = s.table) (hout : t.outstanding = s.outstanding)
    (hsub : ∀ r ∈ t.inUse, r ∈ s.inUse) : t.Kept where
  honest := by rw [htable]; exact hs.honest.lose (slips_subset hsub)
  stored := by rw [htable, hout]; exact hs.stored
  owned := by rw [htable, hout]; exact hs.owned

/-- The entry of a request in use is taken out, and its event is not outstanding any more. -/
theorem Kept.remove (hs : s.Kept) (hr : r ∈ s.inUse)
    (htable : t.table = Function.update s.table (key r) none)
    (hout : t.outstanding = s.outstanding.filter (· ≠ r))
    (hsub : ∀ r ∈ t.inUse, r ∈ s.inUse) : t.Kept := by
  have hle : ∀ k ev, t.table k = some ev → k ≠ key r ∧ s.table k = some ev := by
    intro k ev hk
    rw [htable] at hk
    by_cases hkk : k = key r
    · subst hkk
      rw [Function.update_self] at hk
      cases hk
    · rw [Function.update_of_ne hkk] at hk
      exact ⟨hkk, hk⟩
  exact {
    honest := (hs.honest.shrink fun k ev hk => (hle k ev hk).2).lose (slips_subset hsub)
    stored := fun r' hr' => by
      rw [hout, List.mem_filter] at hr'
      obtain ⟨hr', hne⟩ := hr'
      have hst := hs.stored r' hr'
      have hkey : key r' ≠ key r := by
        intro hk
        have hev : r'.ev = r.ev := hs.honest _ (mem_slips hr) _ (hk ▸ hst)
        have hrr : r' = r := by
          cases r
          cases r'
          simp only [key, Prod.mk.injEq] at hk hev
          rw [hev, hk.1, hk.2]
        simp [hrr] at hne
      rw [htable, Function.update_of_ne hkey]
      exact hst
    owned := fun k ev hk => by
      obtain ⟨hkk, hk⟩ := hle k ev hk
      rw [hout, List.mem_filter]
      refine ⟨hs.owned k ev hk, ?_⟩
      simp only [ne_eq, decide_eq_true_eq]
      rintro rfl
      exact hkk rfl }

theorem Kept.enter (hs : s.Kept) {ev : EventId} {id : UInt32} {c : ConnId}
    (hfresh : ∀ r ∈ s.inUse, key r ≠ (c, id))
    (htable : t.table = Function.update s.table (c, id) (some ev))
    (hout : t.outstanding = ⟨ev, c, id⟩ :: s.outstanding)
    (hsub : ∀ r ∈ t.inUse, r = ⟨ev, c, id⟩ ∨ r ∈ s.inUse) : t.Kept where
  honest := by
    have hkeys : ∀ n ∈ s.slips, n.1 ≠ (c, id) := by
      intro n hn
      obtain ⟨r, hr, rfl⟩ := List.mem_map.1 hn
      exact hfresh r hr
    have hnew : Honest t.table (((c, id), ev) :: s.slips) := by
      rw [htable]
      refine (hs.honest.insert hkeys ev).issue fun ev' h => ?_
      rw [Function.update_self, Option.some.injEq] at h
      exact h.symm
    refine hnew.lose fun n hn => ?_
    obtain ⟨r, hr, rfl⟩ := List.mem_map.1 hn
    rcases hsub r hr with rfl | hr
    · exact List.mem_cons_self
    · exact List.mem_cons_of_mem _ (mem_slips hr)
  stored r hr := by
    rw [htable]
    rw [hout] at hr
    rcases List.mem_cons.1 hr with rfl | hr
    · exact Function.update_self ..
    · rw [Function.update_of_ne (hfresh r (mem_inUse.2 (.inr (.inl hr))))]
      exact hs.stored r hr
  owned k ev' hk := by
    rw [htable] at hk
    rw [hout]
    by_cases hkk : k = (c, id)
    · subst hkk
      rw [Function.update_self, Option.some.injEq] at hk
      rw [hk]
      exact List.mem_cons_self
    · rw [Function.update_of_ne hkk] at hk
      exact List.mem_cons_of_mem _ (hs.owned k ev' hk)

theorem Kept.free (hs : s.Kept) {k : ConnId × UInt32} (hfresh : ∀ r ∈ s.inUse, key r ≠ k) :
    s.table k = none := by
  by_contra h
  obtain ⟨ev, hev⟩ := Option.ne_none_iff_exists'.1 h
  exact hfresh _ (mem_inUse.2 (.inr (.inl (hs.owned k ev hev)))) rfl

theorem Kept.matched (hs : s.Kept) (hown : ∀ e ∈ s.completed, ∀ ev, e.2 = some ev → ev = e.1) :
    s.Matched where
  stored := hs.stored
  found r hr := by
    have huse : r ∈ s.inUse := mem_inUse.2 (.inr (.inr (.inr hr)))
    split_ifs with hout
    · exact hs.stored r hout
    · rcases hs.honest.lookup (mem_slips huse) with h | h
      · exact absurd (hs.owned _ _ h) hout
      · exact h
  own := hown

/-! ## The steps -/

theorem kept_response (hs : s.Kept) (hown : ∀ e ∈ s.completed, ∀ ev, e.2 = some ev → ev = e.1)
    (h : client.step s (.response r) = some t) :
    t.Kept ∧ ∀ e ∈ t.completed, ∀ ev, e.2 = some ev → ev = e.1 := by
  simp only [client, Client.step] at h
  split_ifs at h with hr
  cases h
  have huse : r ∈ s.inUse := mem_inUse.2 (.inr (.inr (.inr hr)))
  rcases hs.honest.lookup (mem_slips huse) with hk | hk
  · have hk' : s.table (r.conn, r.id) = some r.ev := hk
    simp only [recvRspMsg, hk']
    refine ⟨hs.remove huse (table_remove rfl) rfl ?_, List.forall_mem_append.2 ⟨hown, by simp⟩⟩
    exact inUse_subset (List.Subset.refl _) (List.filter_subset_self _) (List.Subset.refl _)
      List.erase_subset
  · have hk' : s.table (r.conn, r.id) = none := hk
    simp only [recvRspMsg, hk']
    exact ⟨hs.congr rfl rfl (inUse_subset (List.Subset.refl _) (List.Subset.refl _)
      (List.Subset.refl _) List.erase_subset), hown⟩

theorem kept_disconnect {c : ConnId} (hs : s.Kept)
    (hown : ∀ e ∈ s.completed, ∀ ev, e.2 = some ev → ev = e.1)
    (h : client.step s (.disconnect c) = some t) :
    t.Kept ∧ ∀ e ∈ t.completed, ∀ ev, e.2 = some ev → ev = e.1 := by
  simp only [client, Client.step] at h
  split_ifs at h with hent
  cases h
  have htable : ∀ k : ConnId × UInt32, (Function.update s.mSendEventMap c [] k.1).lookup k.2
      = if k.1 = c then none else s.table k := by
    intro k
    by_cases hk : k.1 = c
    · rw [hk, Function.update_self, if_pos rfl]
      rfl
    · rw [Function.update_of_ne hk, if_neg hk]
      rfl
  refine ⟨⟨?_, fun r hr => ?_, fun k ev hk => ?_⟩,
    List.forall_mem_append.2 ⟨hown, List.forall_mem_map.2 fun _ _ => nofun⟩⟩
  · refine (hs.honest.shrink fun k ev hk => ?_).lose (slips_subset (inUse_subset
      (List.Subset.refl _) (List.filter_subset_self _) (List.filter_subset_self _)
      (List.filter_subset_self _)))
    simp only [table, htable] at hk
    split_ifs at hk
    exact hk
  · obtain ⟨hr, hne⟩ := List.mem_filter.1 hr
    simp only [table, htable]
    rw [if_neg (by simpa [key] using hne)]
    exact hs.stored r hr
  · simp only [table, htable] at hk
    split_ifs at hk with hkc
    exact List.mem_filter.2 ⟨hs.owned k ev hk, by simpa using hkc⟩

theorem inUse_addEventEntry {ev : EventId} {id : UInt32} {c : ConnId}
    (h : client.step s (.addEventEntry ev id c) = some t) :
    ∀ r ∈ t.inUse, r = ⟨ev, c, id⟩ ∨ r ∈ s.inUse := by
  simp only [client, Client.step] at h
  split_ifs at h
  cases h
  intro r hr
  by_cases hnew : r = ⟨ev, c, id⟩
  · exact .inl hnew
  · simp only [mem_inUse, List.mem_cons, hnew, false_or] at hr
    exact .inr (mem_inUse.2 hr)

theorem inUse_postSend (h : client.step s (.postSend r) = some t) :
    ∀ r' ∈ t.inUse, r' ∈ s.inUse := by
  simp only [client, Client.step] at h
  split_ifs at h with hr
  cases h
  intro r' hr'
  by_cases hnew : r' = r
  · exact hnew ▸ mem_inUse.2 (.inl hr)
  · simp only [mem_inUse, List.mem_cons, hnew, false_or] at hr'
    exact mem_inUse.2 (hr'.imp_left List.mem_of_mem_erase)

/-- A step keeps the maps right, and completes with a response only the event of its request. -/
theorem kept_step (hs : s.Kept) (hown : ∀ e ∈ s.completed, ∀ ev, e.2 = some ev → ev = e.1)
    (hc : s.FreshId l) (h : client.step s l = some t) :
    t.Kept ∧ ∀ e ∈ t.completed, ∀ ev, e.2 = some ev → ev = e.1 := by
  have hfail : ∀ ev, ∀ e ∈ s.completed ++ [(ev, none)], ∀ ev', e.2 = some ev' → ev' = e.1 :=
    fun ev => List.forall_mem_append.2 ⟨hown, by simp⟩
  cases l with
  | number =>
    cases h
    exact ⟨hs.congr rfl rfl fun _ h => h, hown⟩
  | noConn ev id =>
    simp only [client, Client.step] at h
    split_ifs at h
    cases h
    exact ⟨hs.congr rfl rfl fun _ h => h, hfail ev⟩
  | addEventEntry ev id c =>
    have huse := inUse_addEventEntry h
    simp only [client, Client.step] at h
    split_ifs at h
    cases h
    have hfresh : ∀ r ∈ s.inUse, key r ≠ (c, id) := hc (c, id) rfl
    exact ⟨hs.enter hfresh (table_add (hs.free hfresh) rfl) rfl huse, hown⟩
  | cleanupFailedReq r =>
    simp only [client, Client.step] at h
    split_ifs at h with hr
    cases h
    refine ⟨hs.remove (mem_inUse.2 (.inl hr)) (table_remove rfl) rfl ?_, hfail r.ev⟩
    exact inUse_subset List.erase_subset (List.filter_subset_self _) (List.Subset.refl _)
      (List.Subset.refl _)
  | postSend r =>
    have huse := inUse_postSend h
    simp only [client, Client.step] at h
    split_ifs at h
    cases h
    exact ⟨hs.congr rfl rfl huse, hown⟩
  | sendDone r =>
    simp only [client, Client.step] at h
    split_ifs at h with hr
    cases h
    exact ⟨hs.congr rfl rfl (inUse_subset (List.Subset.refl _) (List.Subset.refl _)
      List.erase_subset (List.Subset.refl _)), hown⟩
  | sendFails r =>
    simp only [client, Client.step] at h
    split_ifs at h with hr
    cases h
    have huse : r ∈ s.inUse := mem_inUse.2 (.inr (.inr (.inl hr)))
    refine ⟨hs.remove huse (table_remove rfl) rfl ?_, hfail r.ev⟩
    exact inUse_subset (List.Subset.refl _) (List.filter_subset_self _) List.erase_subset
      (List.Subset.refl _)
  | response r => exact kept_response hs hown h
  | disconnect c => exact kept_disconnect hs hown h

theorem kept_start (n : UInt32) : ({ mSendCounter := n } : Client).Kept where
  honest := honest_nil _
  stored := by simp
  owned := nofun

/-! ## Numbers that are used up -/

/-- Requests for which there is no connection use up numbers. -/
def spend : ℕ → EventId → UInt32 → List ClientStep
  | 0, _, _ => []
  | n + 1, ev, id => .number :: .noConn ev id :: spend n (ev + 1) (id + 1)

theorem run_spend : ∀ (n : ℕ) (s : Client), s.numbered = [] →
    ∃ done, client.run s (spend n s.nextEvent s.mSendCounter) = some { s with
      mSendCounter := s.mSendCounter + UInt32.ofNat n
      nextEvent := s.nextEvent + n
      completed := done }
  | 0, s, _ => ⟨s.completed, by simp [spend]⟩
  | n + 1, s, hno => by
    let t : Client := { s with
      mSendCounter := s.mSendCounter + 1
      nextEvent := s.nextEvent + 1
      completed := s.completed ++ [(s.nextEvent, none)] }
    have hstep : ∀ ls, client.run s (.number :: .noConn s.nextEvent s.mSendCounter :: ls)
        = client.run t ls := by
      intro ls
      simp [client, Client.step, hno, t]
    obtain ⟨done, hrun⟩ := run_spend n t hno
    refine ⟨done, ?_⟩
    rw [spend, hstep]
    refine hrun.trans ?_
    have hid : s.mSendCounter + 1 + UInt32.ofNat n = s.mSendCounter + UInt32.ofNat (n + 1) := by
      rw [UInt32.ofNat_add, UInt32.add_assoc, UInt32.add_comm 1]
      rfl
    simp only [t, hid, Nat.add_assoc, Nat.add_comm 1]

end Client

open Client in
/-- While no request gets a number that another in use on its connection has, each outstanding event
is stored under its number, and a response completes the event of its own request. -/
theorem response_matches (n : UInt32) {steps : List ClientStep} {s : Client}
    (hrun : client.run { mSendCounter := n } steps = some s)
    (hc : client.Meets FreshId { mSendCounter := n } steps) : s.Matched := by
  have hstep : ∀ s l t, (s.Kept ∧ ∀ e ∈ s.completed, ∀ ev, e.2 = some ev → ev = e.1) →
      FreshId s l → client.step s l = some t →
      t.Kept ∧ ∀ e ∈ t.completed, ∀ ev, e.2 = some ev → ev = e.1 :=
    fun s l t hs hc h => kept_step hs.1 hs.2 hc h
  obtain ⟨hk, hown⟩ := client.run_inv hstep steps ⟨kept_start n, by simp⟩ hc hrun
  exact hk.matched hown

/-- Two requests on one connection, answered in the other order. -/
def answeredInTurn : List ClientStep :=
  [.number, .number, .addEventEntry 0 4294967295 3, .addEventEntry 1 0 3,
    .postSend ⟨0, 3, 4294967295⟩, .postSend ⟨1, 3, 0⟩, .response ⟨1, 3, 0⟩,
    .response ⟨0, 3, 4294967295⟩]

theorem response_matches_turn : ∃ s,
    client.run { mSendCounter := 4294967295 } answeredInTurn = some s ∧
    s.completed = [(1, some 1), (0, some 0)] ∧ s.Matched := by
  obtain ⟨s, hrun, hd⟩ : ∃ s, client.run { mSendCounter := 4294967295 } answeredInTurn = some s ∧
    s.completed = [(1, some 1), (0, some 0)] := ⟨_, rfl, rfl⟩
  exact ⟨s, hrun, hd, response_matches _ hrun (by decide)⟩

/-- A request that is outstanding while `2 ^ 32` numbers are given out keeps the event of the next
one out of the map. -/
theorem event_not_stored : ∃ steps s, client.run {} steps = some s ∧
    ∃ r ∈ s.outstanding, s.table (Client.key r) ≠ some r.ev := by
  let s₀ : Client := {
    mSendCounter := 1
    mSendEventMap := Function.update (fun _ => []) 0 [(0, 0)]
    nextEvent := 1
    entered := [⟨0, 0, 0⟩]
    outstanding := [⟨0, 0, 0⟩] }
  have hfirst : client.run {} [.number, .addEventEntry 0 0 0] = some s₀ := rfl
  obtain ⟨done, hspend⟩ := Client.run_spend (2 ^ 32 - 1) s₀ rfl
  -- the counter is back where it began
  have hback : s₀.mSendCounter + UInt32.ofNat (2 ^ 32 - 1) = 0 := by decide
  rw [hback] at hspend
  have hlast : ∀ s : Client, s.mSendCounter = 0 → s.numbered = [] →
      s.mSendEventMap 0 = [(0, 0)] → ∃ t, client.run s
        [.number, .addEventEntry s.nextEvent 0 0] = some t ∧
        ⟨s.nextEvent, 0, 0⟩ ∈ t.outstanding ∧ t.table (0, 0) = some 0 := by
    intro s hid hno hmap
    refine ⟨_, by simp [client, Client.step, hid, hno]; rfl, List.mem_cons_self, ?_⟩
    simp [Client.table, hmap, EventMap.addEntry]
  obtain ⟨t, hrun, hmem, htable⟩ := hlast
    { s₀ with mSendCounter := 0, nextEvent := s₀.nextEvent + (2 ^ 32 - 1), completed := done }
    rfl rfl rfl
  refine ⟨[.number, .addEventEntry 0 0 0] ++ (Client.spend (2 ^ 32 - 1) s₀.nextEvent
    s₀.mSendCounter ++ [.number, .addEventEntry (s₀.nextEvent + (2 ^ 32 - 1)) 0 0]), t, ?_, _,
    hmem, ?_⟩
  · rw [Machine.run_append, hfirst, Option.bind_some, Machine.run_append, hspend, Option.bind_some]
    exact hrun
  · rw [show Client.key _ = ((0 : ConnId), (0 : UInt32)) from rfl, htable]
    simp

end Longda
