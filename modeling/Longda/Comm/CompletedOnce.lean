import Longda.Comm.Completion

/-!
# Each event is completed once

An event that is out is in the map, in the parameter of the receive vectors, or with a thread about
to complete it, and in one of these places only (`Kept.books`). The send side has it besides, from
`addEventEntry` to the callback of the last vector (`unsent`), and only while the map or the
receive side has it too. So who completes an event takes it out of the one place, and needs the
send side to be through with it.

The receive side does not see to that: it completes what it has taken out of the map whether or not
the last send callback has run. `Calm` says that the run is spared this and what else loses an event
for good: a number that is taken, a file of more than one block or not written, a buffer refused.
-/

namespace Longda

open Lib

/-! ## The map -/

namespace EventMap

variable {m : EventMap} {e : Entry} {id : UInt32}

theorem removeEntry_eq_self (h : id ∉ m.map Prod.fst) : m.removeEntry id = m := by
  refine List.filter_eq_self.2 fun e he => bne_iff_ne.2 ?_
  rintro rfl
  exact h (List.mem_map_of_mem he)

theorem removeEntry_cons_of_ne (h : e.1 ≠ id) :
    removeEntry (e :: m) id = e :: removeEntry m id := by
  simp [removeEntry, h]

theorem perm_removeEntry (hm : (m.map Prod.fst).Nodup) (he : e ∈ m) :
    m.Perm (e :: m.removeEntry e.1) := by
  induction m with
  | nil => cases he
  | cons a m ih =>
    obtain ⟨ha, hm⟩ := List.nodup_cons.1 hm
    rcases List.mem_cons.1 he with rfl | he
    · have hself : removeEntry (e :: m) e.1 = m := by
        have hskip : removeEntry (e :: m) e.1 = removeEntry m e.1 := by simp [removeEntry]
        rw [hskip, removeEntry_eq_self ha]
      rw [hself]
    · have hne : a.1 ≠ e.1 := fun h => ha (h ▸ List.mem_map_of_mem he)
      rw [removeEntry_cons_of_ne hne]
      exact ((ih hm he).cons a).trans (List.Perm.swap e a _)

theorem mem_of_lookup {ev : EventId} (h : m.lookup id = some ev) : (id, ev) ∈ m := by
  obtain ⟨l, r, rfl, -⟩ := List.lookup_eq_some_iff.1 h
  simp

theorem addEntry_of_fresh (h : id ∉ m.map Prod.fst) (ev : EventId) :
    m.addEntry id ev = m ++ [(id, ev)] := by
  have hno : m.lookup id = none := by
    refine List.lookup_eq_none_iff.2 fun e he => bne_iff_ne.2 ?_
    rintro rfl
    exact h (List.mem_map_of_mem he)
  simp [addEntry, hno]

end EventMap

/-! ## The vectors of a request -/

namespace ReqVec

/-- The requests whose last vector is among these. -/
def lasts (vs : List ReqVec) : List Entry := (vs.filter (·.last)).map (·.entry)

/-- Each vector has the last one of its request at or behind it. -/
def Covered : List ReqVec → Prop
  | [] => True
  | v :: vs => v.entry ∈ lasts (v :: vs) ∧ Covered vs

variable {vs us : List ReqVec} {v : ReqVec} {e : Entry}

@[simp] theorem lasts_append : lasts (vs ++ us) = lasts vs ++ lasts us := by simp [lasts]

theorem lasts_cons : lasts (v :: vs) = (if v.last then [v.entry] else []) ++ lasts vs := by
  cases h : v.last <;> simp [lasts, h]

theorem Covered.append : ∀ {vs : List ReqVec}, Covered vs → Covered us → Covered (vs ++ us)
  | [], _, hu => hu
  | v :: vs, h, hu => by
    refine ⟨?_, h.2.append hu⟩
    show v.entry ∈ lasts ((v :: vs) ++ us)
    rw [lasts_append]
    exact List.mem_append_left _ h.1

theorem Covered.mem_lasts : ∀ {vs : List ReqVec}, Covered vs → v ∈ vs → v.entry ∈ lasts vs
  | u :: vs, h, hv => by
    rcases List.mem_cons.1 hv with rfl | hv
    · exact h.1
    · rw [lasts_cons]
      exact List.mem_append_right _ (Covered.mem_lasts h.2 hv)

theorem lasts_perm (h : vs.Perm us) : (lasts vs).Perm (lasts us) :=
  (h.filter _).map _

theorem batch_eq (e : Entry) (attachs : ℕ) : ∃ vs a,
    batch e attachs = vs ++ [⟨e, a, true⟩] ∧ ∀ v ∈ vs, v.entry = e ∧ v.last = false := by
  rcases attachs with _ | n
  · exact ⟨[], false, rfl, by simp⟩
  · refine ⟨⟨e, false, false⟩ :: (List.range n).map fun i => ⟨e, true, i + 1 = n + 1⟩, true, ?_, ?_⟩
    · simp [batch, List.range_succ]
    · intro v hv
      simp only [List.mem_cons, List.mem_map, List.mem_range] at hv
      rcases hv with rfl | ⟨i, hi, rfl⟩
      · exact ⟨rfl, rfl⟩
      · exact ⟨rfl, decide_eq_false (by omega)⟩

theorem lasts_batch (e : Entry) (attachs : ℕ) : lasts (batch e attachs) = [e] := by
  obtain ⟨vs, a, hb, hvs⟩ := batch_eq e attachs
  have hno : vs.filter (·.last) = [] := by
    refine List.filter_eq_nil_iff.2 fun v hv => ?_
    simp [(hvs v hv).2]
  rw [hb, lasts_append]
  simp [lasts, hno]

theorem covered_batch (e : Entry) (attachs : ℕ) : Covered (batch e attachs) := by
  obtain ⟨vs, a, hb, hvs⟩ := batch_eq e attachs
  rw [hb]
  have hcov : ∀ us : List ReqVec, (∀ v ∈ us, v.entry = e ∧ v.last = false) →
      Covered (us ++ [⟨e, a, true⟩]) := by
    intro us hus
    induction us with
    | nil => exact ⟨by simp [lasts], trivial⟩
    | cons u us ih =>
      refine ⟨?_, ih fun v hv => hus v (List.mem_cons_of_mem _ hv)⟩
      show u.entry ∈ lasts ((u :: us) ++ [⟨e, a, true⟩])
      rw [(hus u List.mem_cons_self).1, lasts_append]
      simp [lasts]
  exact hcov vs hvs

end ReqVec

namespace Requests

open ReqVec

/-! ## Where an event can be -/

/-- The requests whose response is to come or being received. -/
def awaited (s : Requests) : List Entry := s.mSendEventMap ++ s.cev.toList

/-- The requests a thread has taken out of the map to fail them. -/
def failing (s : Requests) : List Entry := s.removed.toList.map Prod.fst ++ s.failedReqs

def held (s : Requests) : List Entry := s.awaited ++ s.failing

def vecs (s : Requests) : List ReqVec := s.mCurSendBlock.toList ++ s.mSendQ

/-- The requests whose last send callback is to come. -/
def unsent (s : Requests) : List Entry :=
  s.entered ++ lasts s.vecs ++ s.calling.toList.map Prod.fst

/-- The request a step of the send side fails. -/
def fails (s : Requests) : RequestStep → Option Entry
  | .cleanupFailedReq e => some e
  | .sendReqCallback => s.calling.bind fun c => if c.2 = .DONE then none else some c.1
  | _ => none

/-- The request whose event a step of the receive side completes. -/
def finishes (s : Requests) : RequestStep → Option Entry
  | .eventDone => s.cev
  | .completeErr => s.cev
  | _ => none

end Requests

namespace RequestStep

/-- The number under which an event is entered. -/
def enters : RequestStep → Option UInt32
  | .addEventEntry id _ _ => some id
  | _ => none

/-- Nothing cuts the reception of a response short. -/
def whole : RequestStep → Bool
  | .badAlloc => false
  | .recvFile written last => written && last
  | _ => true

def receives : RequestStep → Bool
  | .received => true
  | _ => false

end RequestStep

namespace Requests

open ReqVec

/-- Where each event stays with who has it: a number is not given out while it is awaited, the send
side fails no event the receive side has, the receive side completes none the send side has, a
response is received whole, and nothing is received behind an error. -/
def Calm (s : Requests) (l : RequestStep) : Prop :=
  (∀ id ∈ l.enters, ∀ e ∈ s.awaited, e.1 ≠ id) ∧ (∀ e ∈ s.fails l, s.cev ≠ some e) ∧
    (∀ e ∈ s.finishes l, e ∉ s.unsent) ∧ l.whole = true ∧ (l.receives = true → s.recvFailed = false)

instance (s : Requests) (l : RequestStep) : Decidable (s.Calm l) :=
  have : Decidable (∀ id ∈ l.enters, ∀ e ∈ s.awaited, e.1 ≠ id) :=
    Option.decidableForallMem l.enters
  inferInstanceAs (Decidable (_ ∧ _ ∧ _ ∧ _ ∧ _))

/-- Each event is completed at most once and not touched behind that, an event that is not completed
is still to be, and once the connection is deleted each is but where a thread is about to. -/
structure Sound (s : Requests) : Prop where
  quiet : Quiet s.log
  once : ∀ ev, s.log.count (.handBack ev) ≤ 1
  kept : ∀ ev < s.nextEvent, .handBack ev ∈ s.log ∨ ∃ e ∈ s.held, e.2 = ev
  settled : s.phase = .deleted → s.failedReqs = [] →
    ∀ ev < s.nextEvent, s.log.count (.handBack ev) = 1

/-- What holds in every state of a calm run. -/
structure Kept (s : Requests) : Prop where
  books : Books (· < s.nextEvent) (s.held.map Prod.snd) s.log
  ids : (s.awaited.map Prod.fst).Nodup
  unsent_nodup : s.unsent.Nodup
  unsent_sub : ∀ e ∈ s.unsent, e ∈ s.awaited
  calls : s.calling.isSome → s.removed = none
  covered : s.phase = .up → Covered s.vecs
  entered : s.phase ≠ .up → s.entered = []
  staged : s.rspStage ≠ .idle → s.cev.isSome
  drained : s.rspStage ≠ .idle → s.rspStage ≠ .failed → s.mRecvQ = []
  posted : s.cev.isSome → s.rspStage = .idle → s.mRecvQ ≠ []
  broken : s.rspStage = .failed → s.recvFailed = true
  bufs : ∀ ev, some ev ∈ s.mRecvQ → s.recvFailed = true ∨ ∃ e, s.cev = some e ∧ e.2 = ev
  deleted : s.phase = .deleted → s.awaited = [] ∧ s.removed = none

variable {s t : Requests} {l : RequestStep} {e : Entry} {ev : EventId}

/-! ## What a step moves -/

theorem sendIdle_iff : s.sendIdle = true ↔ s.calling = none ∧ s.removed = none := by
  simp [sendIdle]

theorem mem_held_of_awaited (h : e ∈ s.awaited) : e ∈ s.held := List.mem_append_left _ h

theorem Kept.mem_held (hs : s.Kept) (h : e ∈ s.unsent) : e ∈ s.held :=
  mem_held_of_awaited (hs.unsent_sub e h)

theorem mem_awaited_cev (h : s.cev = some e) : e ∈ s.awaited := by simp [awaited, h]

theorem Kept.use (hs : s.Kept) (he : e ∈ s.held) : (s.use e.2).Kept where
  books := hs.books.use (List.mem_map_of_mem he)
  ids := hs.ids
  unsent_nodup := hs.unsent_nodup
  unsent_sub := hs.unsent_sub
  calls := hs.calls
  covered := hs.covered
  entered := hs.entered
  staged := hs.staged
  drained := hs.drained
  posted := hs.posted
  broken := hs.broken
  bufs := hs.bufs
  deleted := hs.deleted

theorem Kept.use_cev (hs : s.Kept) (hcev : s.cev = some e) : (s.use e.2).Kept :=
  hs.use (mem_held_of_awaited (mem_awaited_cev hcev))

theorem Kept.setEvents (hs : s.Kept) (events : EventId → CommEvent) :
    ({ s with events := events } : Requests).Kept :=
  ⟨hs.books, hs.ids, hs.unsent_nodup, hs.unsent_sub, hs.calls, hs.covered, hs.entered, hs.staged,
    hs.drained, hs.posted, hs.broken, hs.bufs, hs.deleted⟩

theorem Kept.receive (hs : s.Kept) {r : RspStage} {a : ℕ} {f b : Bool} {q : List (Option EventId)}
    (hstaged : r ≠ .idle → s.cev.isSome) (hdrained : r ≠ .idle → r ≠ .failed → q = [])
    (hposted : s.cev.isSome → r = .idle → q ≠ []) (hbroken : r = .failed → b = true)
    (hbufs : ∀ ev, some ev ∈ q → b = true ∨ ∃ e, s.cev = some e ∧ e.2 = ev) :
    Kept { s with rspStage := r, attachs := a, file := f, recvFailed := b, mRecvQ := q } :=
  ⟨hs.books, hs.ids, hs.unsent_nodup, hs.unsent_sub, hs.calls, hs.covered, hs.entered, hstaged,
    hdrained, hposted, hbroken, hbufs, hs.deleted⟩

/-- The send side goes on, and has no request it did not have. -/
theorem Kept.send (hs : s.Kept) (en : List Entry) (cur : Option ReqVec) (q : List ReqVec)
    (call : Option (Entry × VecState))
    (hunsent : (en ++ lasts (cur.toList ++ q) ++ call.toList.map Prod.fst).Subperm s.unsent)
    (hcall : call.isSome → s.removed = none)
    (hcov : s.phase = .up → Covered (cur.toList ++ q)) (hen : s.phase ≠ .up → en = []) :
    Kept { s with entered := en, mCurSendBlock := cur, mSendQ := q, calling := call } :=
  { hs with
    unsent_nodup := by
      obtain ⟨_, hp, hsub⟩ := hunsent
      exact hp.nodup_iff.1 (hsub.nodup hs.unsent_nodup)
    unsent_sub := fun e he => hs.unsent_sub e (hunsent.subset he)
    calls := hcall
    covered := hcov
    entered := hen }

/-- The request that fails is in the map, and taken out of it alone. -/
theorem Kept.perm_awaited (hs : s.Kept) (he : e ∈ s.unsent) (hcev : s.cev ≠ some e) :
    s.awaited.Perm (e :: (s.removeEventEntry e.1).awaited) := by
  have hmem : e ∈ s.mSendEventMap := by
    rcases List.mem_append.1 (hs.unsent_sub e he) with h | h
    · exact h
    · exact absurd (Option.mem_toList.1 h) hcev
  have hnodup : (s.mSendEventMap.map Prod.fst).Nodup := by
    have hids := hs.ids
    rw [awaited, List.map_append] at hids
    exact (List.nodup_append.1 hids).1
  exact (EventMap.perm_removeEntry hnodup hmem).append_right _

/-- A request that is awaited is taken out of the map by who is to fail it. -/
theorem Kept.fail (hs : s.Kept) (he : e ∈ s.unsent) (hcev : s.cev ≠ some e) (en fr : List Entry)
    (call rem : Option (Entry × VecState))
    (hunsent : (e :: (en ++ lasts s.vecs ++ call.toList.map Prod.fst)).Perm s.unsent)
    (hfailing : (rem.toList.map Prod.fst ++ fr).Perm (e :: s.failing))
    (hcall : call.isSome → rem = none)
    (hen : s.phase ≠ .up → en = []) : Kept { s.removeEventEntry e.1 with
      entered := en, calling := call, removed := rem, failedReqs := fr } := by
  have hp := hs.perm_awaited he hcev
  have hheld : s.held.Perm ((s.removeEventEntry e.1).awaited ++ (rem.toList.map Prod.fst ++ fr)) :=
    (hp.append_right _).trans (List.perm_middle.symm.trans (hfailing.symm.append_left _))
  have hnodup := hunsent.nodup_iff.2 hs.unsent_nodup
  exact {
    hs with
    books := hs.books.perm (hheld.map _)
    ids := (List.nodup_cons.1 ((hp.map Prod.fst).nodup_iff.1 hs.ids)).2
    unsent_nodup := (List.nodup_cons.1 hnodup).2
    unsent_sub := fun e' he' => by
      have hmem := hp.subset (hs.unsent_sub e' (hunsent.subset (List.mem_cons_of_mem _ he')))
      rcases List.mem_cons.1 hmem with rfl | hmem
      · exact absurd he' (List.nodup_cons.1 hnodup).1
      · exact hmem
    calls := hcall
    entered := hen
    deleted := fun hd => by
      have hno := hs.unsent_sub e he
      rw [(hs.deleted hd).1] at hno
      cases hno }

/-- Who has taken a request out of the map completes its event. -/
theorem Kept.completeFailing (hs : s.Kept) (stev : Int32) (rem : Option (Entry × VecState))
    (fr : List Entry) (hfailing : s.failing.Perm (e :: (rem.toList.map Prod.fst ++ fr)))
    (hrem : s.removed = none → rem = none) :
    Kept { s.completeEvent e.2 stev with removed := rem, failedReqs := fr } := by
  have hheld : s.held.Perm (e :: (s.awaited ++ (rem.toList.map Prod.fst ++ fr))) :=
    (hfailing.append_left _).trans List.perm_middle
  exact {
    hs with
    books := (hs.books.perm (hheld.map _)).handBack
    calls := fun h => hrem (hs.calls h)
    deleted := fun hd => ⟨(hs.deleted hd).1, hrem (hs.deleted hd).2⟩ }

/-- The receive side completes the event it has, with the send side through with it. -/
theorem Kept.completeCev (hs : s.Kept) (hcev : s.cev = some e) (hunsent : e ∉ s.unsent)
    (stev : Int32) {q : List (Option EventId)}
    (hbufs : ∀ ev, some ev ∈ q → s.recvFailed = true) :
    Kept { s.completeEvent e.2 stev with cev := none, rspStage := .idle, mRecvQ := q } := by
  have hp : s.awaited.Perm (e :: s.mSendEventMap) := by
    simp [awaited, hcev]
  have hheld : s.held.Perm (e :: (s.mSendEventMap ++ s.failing)) := hp.append_right _
  have hmap : ∀ {α : Type} (f : Entry → α), s.mSendEventMap.map f
      = (s.mSendEventMap ++ (none : Option Entry).toList).map f := by simp
  exact {
    hs with
    books := by
      have hb := (hs.books.perm (hheld.map _)).handBack
      simpa [held, awaited, failing, completeEvent] using hb
    ids := by
      have hids := (List.nodup_cons.1 ((hp.map Prod.fst).nodup_iff.1 hs.ids)).2
      rwa [hmap] at hids
    unsent_sub := fun e' he' => by
      rcases List.mem_cons.1 (hp.subset (hs.unsent_sub e' he')) with rfl | hmem
      · exact absurd he' hunsent
      · exact List.mem_append_left _ hmem
    staged := fun h => absurd rfl h
    drained := fun h => absurd rfl h
    posted := fun h => by cases h
    broken := fun h => by cases h
    bufs := fun ev h => .inl (hbufs ev h)
    deleted := fun hd => by
      have hno := (hs.deleted hd).1
      rw [hno] at hp
      exact absurd hp.symm.eq_nil (List.cons_ne_nil _ _) }

theorem Kept.lt_of_held (hs : s.Kept) (he : e ∈ s.held) : e.2 < s.nextEvent :=
  ((hs.books.mem_iff e.2).1 (List.mem_map_of_mem he)).1

theorem issued_succ (n : EventId) : ∀ ev, ev < n + 1 ↔ ev = n ∨ ev < n := by
  intro ev
  rw [Nat.lt_succ_iff_lt_or_eq, or_comm]

theorem Kept.books_new (hs : s.Kept) : Books (· < s.nextEvent + 1)
    (s.nextEvent :: s.held.map Prod.snd) (s.log ++ [.use s.nextEvent]) :=
  (hs.books.issue (lt_irrefl _) (issued_succ _)).use List.mem_cons_self

theorem Kept.refuse (hs : s.Kept) (id : UInt32) (request response : MsgDesc Message)
    (stev : Int32) : ((s.newRequest id request response).completeEvent s.nextEvent stev).Kept :=
  { hs with books := hs.books_new.handBack }

theorem Kept.addEventEntry (hs : s.Kept) (hup : s.phase = .up) {id : UInt32}
    (hid : ∀ e ∈ s.awaited, e.1 ≠ id) (request response : MsgDesc Message) :
    Kept { s.newRequest id request response with
      mSendEventMap := s.mSendEventMap.addEntry id s.nextEvent
      entered := (id, s.nextEvent) :: s.entered } := by
  have hfresh : id ∉ s.mSendEventMap.map Prod.fst := by
    intro h
    obtain ⟨e, he, rfl⟩ := List.mem_map.1 h
    exact hid e (List.mem_append_left _ he) rfl
  have hadd := EventMap.addEntry_of_fresh hfresh s.nextEvent
  have hp : (s.mSendEventMap.addEntry id s.nextEvent ++ s.cev.toList).Perm
      ((id, s.nextEvent) :: s.awaited) := by
    rw [hadd, List.append_assoc]
    exact List.perm_middle
  have hnew : (id, s.nextEvent) ∉ s.unsent := fun h => lt_irrefl _ (hs.lt_of_held (hs.mem_held h))
  exact {
    hs with
    books := hs.books_new.perm ((hp.append_right s.failing).map Prod.snd).symm
    ids := by
      refine (hp.map Prod.fst).nodup_iff.2 (List.nodup_cons.2 ⟨fun h => ?_, hs.ids⟩)
      obtain ⟨e, he, hidd⟩ := List.mem_map.1 h
      exact hid e he hidd
    unsent_nodup := List.nodup_cons.2 ⟨hnew, hs.unsent_nodup⟩
    unsent_sub := fun e he => hp.symm.subset <| by
      rcases List.mem_cons.1 he with rfl | he
      · exact List.mem_cons_self
      · exact List.mem_cons_of_mem _ (hs.unsent_sub e he)
    entered := fun h => absurd hup h
    deleted := fun h => by
      have hd : s.phase = .deleted := h
      rw [hup] at hd
      cases hd }

theorem Kept.take (hs : s.Kept) (hcev : s.cev = none) (hup : s.phase = .up) {id : UInt32}
    (hev : (id, ev) ∈ s.mSendEventMap) (mId : UInt64) (mStatus : Int32) (a : ℕ) (f : Bool) :
    Kept { s.removeEventEntry id with
      cev := some (id, ev), rspStage := .found mId mStatus
      attachs := a, file := f, mRecvQ := [] } := by
  have hids : (s.mSendEventMap.map Prod.fst).Nodup := by simpa [awaited, hcev] using hs.ids
  have hp : s.awaited.Perm (s.mSendEventMap.removeEntry id ++ [(id, ev)]) := by
    have hself : s.awaited = s.mSendEventMap := by simp [awaited, hcev]
    rw [hself]
    exact (EventMap.perm_removeEntry hids hev).trans (List.perm_append_singleton _ _).symm
  exact {
    hs with
    books := hs.books.perm ((hp.append_right s.failing).map _)
    ids := (hp.map Prod.fst).nodup_iff.1 hs.ids
    unsent_sub := fun e he => hp.subset (hs.unsent_sub e he)
    staged := fun _ => rfl
    drained := fun _ _ => rfl
    posted := fun _ h => by cases h
    broken := fun h => by cases h
    bufs := fun ev h => by cases h
    deleted := fun h => by
      have hd : s.phase = .deleted := h
      rw [hup] at hd
      cases hd }

theorem Kept.onDisconnect (hs : s.Kept) (hphase : s.phase = .tearing) (hstage : s.rspStage = .idle)
    (hq : s.mRecvQ = []) (hidle : s.sendIdle = true) (hsend : s.mSendQ = [])
    (hcur : s.mCurSendBlock = none) (events : EventId → CommEvent) :
    Kept { s with
      events := events
      log := s.log ++ (s.mSendEventMap.map Prod.snd).map .handBack
      mSendEventMap := [], cev := none, phase := .deleted } := by
  have hcev : s.cev = none := by
    by_contra h
    exact hs.posted (Option.isSome_iff_ne_none.2 h) hstage hq
  obtain ⟨hcall, hrem⟩ := sendIdle_iff.1 hidle
  have hen : s.entered = [] := hs.entered (by simp [hphase])
  have hun : s.unsent = [] := by simp [unsent, vecs, lasts, hen, hsend, hcur, hcall]
  have hb : Books (· < s.nextEvent)
      (s.mSendEventMap.map Prod.snd ++ s.failing.map Prod.snd) s.log := by
    simpa [held, awaited, hcev] using hs.books
  exact {
    hs with
    books := hb.handBackAll
    ids := List.nodup_nil
    unsent_sub := fun e he => by
      have hno : e ∈ s.unsent := he
      rw [hun] at hno
      cases hno
    covered := fun h => by cases h
    entered := fun _ => hen
    staged := fun h => absurd hstage h
    drained := fun h => absurd hstage h
    posted := fun h => by cases h
    bufs := fun ev h => by
      have hno : some ev ∈ s.mRecvQ := h
      rw [hq] at hno
      cases hno
    deleted := fun _ => ⟨rfl, hrem⟩ }

/-! ## The steps -/

theorem Kept.sendCallback (hs : s.Kept) {v : ReqVec} (cur : Option ReqVec) (q : List ReqVec)
    (hidle : s.sendIdle = true) (hvecs : s.vecs.Perm (v :: (cur.toList ++ q)))
    (hcov : s.phase = .up → Covered (cur.toList ++ q)) (state : VecState) :
    (({ s with mCurSendBlock := cur, mSendQ := q } : Requests).sendCallback v state).Kept := by
  obtain ⟨hcall, hrem⟩ := sendIdle_iff.1 hidle
  have hlasts := lasts_perm hvecs
  rw [lasts_cons] at hlasts
  have hun : s.unsent = s.entered ++ lasts s.vecs := by simp [unsent, hcall]
  unfold Requests.sendCallback
  split_ifs with hl
  · rw [if_pos hl] at hlasts
    have hp : s.unsent.Perm (s.entered ++ lasts (cur.toList ++ q) ++ [v.entry]) := by
      rw [hun, List.append_assoc]
      exact (hlasts.trans List.perm_append_comm).append_left _
    have hmem : v.entry ∈ s.unsent := hp.symm.subset (List.mem_append_right _ List.mem_cons_self)
    exact (hs.use (hs.mem_held hmem)).send s.entered cur q (some (v.entry, state)) hp.symm.subperm
      (fun _ => hrem) hcov hs.entered
  · rw [if_neg hl, List.nil_append] at hlasts
    refine hs.send s.entered cur q s.calling ?_ hs.calls hcov hs.entered
    rw [hcall, hun]
    simpa using (hlasts.symm.append_left s.entered).subperm

theorem kept_refuse {id : UInt32} {request response : MsgDesc Message} {stev : Int32} (hs : s.Kept)
    (h : s.step (.refuse id request response stev) = some t) : t.Kept := by
  simp only [Requests.step] at h
  cases h
  exact hs.refuse id request response stev

theorem kept_addEventEntry {id : UInt32} {request response : MsgDesc Message} (hs : s.Kept)
    (hid : ∀ e ∈ s.awaited, e.1 ≠ id) (h : s.step (.addEventEntry id request response) = some t)
    : t.Kept := by
  simp only [Requests.step] at h
  split_ifs at h with hup
  cases h
  exact hs.addEventEntry hup hid request response

theorem kept_cleanupFailedReq (hs : s.Kept) (hcev : s.cev ≠ some e)
    (h : s.step (.cleanupFailedReq e) = some t) : t.Kept := by
  simp only [Requests.step] at h
  split_ifs at h with he
  cases h
  have hun : e ∈ s.unsent := List.mem_append_left _ (List.mem_append_left _ he)
  refine (hs.use (hs.mem_held hun)).fail hun hcev (s.entered.erase e) (e :: s.failedReqs)
    s.calling s.removed ?_ List.perm_middle hs.calls fun h => by simp [hs.entered h]
  exact ((List.perm_cons_erase he).append_right _).append_right _ |>.symm

theorem kept_completeFailedReq (hs : s.Kept) (h : s.step (.completeFailedReq e) = some t)
    : t.Kept := by
  simp only [Requests.step] at h
  split_ifs at h with he
  cases h
  refine hs.completeFailing _ s.removed _ ?_ id
  exact ((List.perm_cons_erase he).append_left _).trans List.perm_middle

theorem kept_postSend {n : ℕ} (hs : s.Kept) (h : s.step (.postSend e n) = some t) : t.Kept := by
  simp only [Requests.step] at h
  split_ifs at h with he
  cases h
  have hun : e ∈ s.unsent := List.mem_append_left _ (List.mem_append_left _ he)
  have hvecs : s.mCurSendBlock.toList ++ (s.mSendQ ++ ReqVec.batch e n)
      = s.vecs ++ ReqVec.batch e n := (List.append_assoc _ _ _).symm
  refine (hs.use (hs.mem_held hun)).send (s.entered.erase e) s.mCurSendBlock _ s.calling ?_
    hs.calls (fun h => ?_) fun h => by simp [hs.entered h]
  · have hlasts : (s.entered.erase e ++ (lasts s.vecs ++ [e])).Perm
        (s.entered ++ lasts s.vecs) := by
      rw [← List.append_assoc]
      exact (List.perm_append_singleton e _).trans ((List.perm_cons_erase he).symm.append_right _)
    rw [hvecs, lasts_append, lasts_batch]
    exact (hlasts.append_right _).subperm
  · rw [hvecs]
    exact (hs.covered h).append (covered_batch e n)

theorem kept_nextVec (hs : s.Kept) (h : s.step .nextVec = some t) : t.Kept := by
  simp only [Requests.step] at h
  split at h
  · rename_i v q hcur hq
    split_ifs at h with hup
    cases h
    have hvecs : (some v).toList ++ q = s.vecs := by simp [vecs, hcur, hq]
    refine hs.send s.entered (some v) q s.calling ?_ hs.calls ?_ hs.entered
    · rw [hvecs]
      exact List.Subperm.refl _
    · rw [hvecs]
      exact hs.covered
  · cases h

theorem kept_sent (hs : s.Kept) (h : s.step .sent = some t) : t.Kept := by
  simp only [Requests.step] at h
  split at h
  · rename_i v hcur
    split_ifs at h with hup hatt
    · cases h
      have hv : v ∈ s.vecs := by simp [vecs, hcur]
      have hun : v.entry ∈ s.unsent :=
        List.mem_append_left _ (List.mem_append_right _ (Covered.mem_lasts (hs.covered hup) hv))
      exact hs.use (hs.mem_held hun)
    · cases h
      exact hs
  · cases h

theorem kept_sendCallback {state : VecState} (hs : s.Kept)
    (h : s.step (.sendCallback state) = some t) : t.Kept := by
  simp only [Requests.step] at h
  split at h
  · rename_i v hcur
    split_ifs at h with hup
    cases h
    have hvecs : s.vecs = v :: s.mSendQ := by simp [vecs, hcur]
    refine hs.sendCallback none s.mSendQ hup.2 (List.Perm.of_eq hvecs) (fun h => ?_) state
    have hcov := hs.covered h
    rw [hvecs] at hcov
    exact hcov.2
  · cases h

theorem kept_sendReqCallback (hs : s.Kept)
    (hfails : ∀ e ∈ s.fails .sendReqCallback, s.cev ≠ some e)
    (h : s.step .sendReqCallback = some t) : t.Kept := by
  simp only [Requests.step] at h
  rcases hcall : s.calling with _ | ⟨e, state⟩
  · rw [hcall] at h
    cases h
  · have hun : s.unsent = s.entered ++ lasts s.vecs ++ [e] := by simp [unsent, hcall]
    have hmem : e ∈ s.unsent := by simp [hun]
    have hfail : state ≠ .DONE → Kept { s.removeEventEntry e.1 with
        calling := none, removed := some (e, state) } := by
      intro hne
      have hrem : s.removed = none := hs.calls (by simp [hcall])
      refine hs.fail hmem (hfails e (by simp [fails, hcall, hne])) s.entered s.failedReqs none
        (some (e, state)) ?_ ?_ (fun h => by cases h) hs.entered
      · show (e :: (s.entered ++ lasts s.vecs ++ [])).Perm s.unsent
        rw [hun, List.append_nil]
        exact (List.perm_append_singleton e _).symm
      · simp [failing, hrem]
    rw [hcall] at h
    cases state <;> cases h
    · refine ((hs.use (hs.mem_held hmem)).setEvents _).send s.entered s.mCurSendBlock s.mSendQ none
        ?_ (fun h => by cases h) hs.covered hs.entered
      show (s.entered ++ lasts s.vecs ++ []).Subperm s.unsent
      rw [hun, List.append_nil]
      exact (List.sublist_append_left _ _).subperm
    · exact hfail (by simp)
    · exact hfail (by simp)

theorem kept_completeRemoved (hs : s.Kept) (h : s.step .completeRemoved = some t) : t.Kept := by
  simp only [Requests.step] at h
  rcases hrem : s.removed with _ | ⟨e, state⟩ <;> rw [hrem] at h <;> cases h
  refine hs.completeFailing _ none s.failedReqs ?_ fun _ => rfl
  simp [failing, hrem]

theorem kept_received (hs : s.Kept) (hsound : s.recvFailed = false) (h : s.step .received = some t)
    : t.Kept := by
  simp only [Requests.step] at h
  split at h
  · rename_i b q hq
    split_ifs at h with hup
    cases h
    rcases b with _ | ev
    · exact hs
    · rcases hs.bufs ev (by simp [hq]) with hb | ⟨e, hcev, rfl⟩
      · rw [hsound] at hb
        cases hb
      · exact hs.use_cev hcev
  · cases h

theorem kept_recvOther {n : ℕ} (hs : s.Kept) (h : s.step (.recvOther n) = some t) : t.Kept := by
  simp only [Requests.step] at h
  split at h
  · rename_i q hq
    split_ifs at h with hup
    cases h
    refine hs.receive hs.staged (fun h => absurd hup.2.1 h) (fun h => ?_) hs.broken
      fun ev hev => ?_
    · rw [hup.2.2] at h
      cases h
    · rcases List.mem_append.1 hev with hev | hev
      · exact hs.bufs ev (by simp [hq, hev])
      · cases List.eq_of_mem_replicate hev
  · cases h

theorem kept_getAndRmEvent {mId : UInt64} {mStatus : Int32} {a : ℕ} {f : Bool} (hs : s.Kept)
    (h : s.step (.getAndRmEvent mId mStatus a f) = some t) : t.Kept := by
  simp only [Requests.step] at h
  split_ifs at h with hup
  split at h
  · cases h
    exact hs
  · rename_i ev hev
    cases h
    exact hs.take hup.2.2.1 hup.1 (EventMap.mem_of_lookup hev) mId mStatus a f

theorem kept_takeResponse (hs : s.Kept) (h : s.step .takeResponse = some t) : t.Kept := by
  simp only [Requests.step] at h
  split at h
  · rename_i e mId mStatus hcev hstage
    cases h
    have hq : s.mRecvQ = [] := hs.drained (by simp [hstage]) (by simp [hstage])
    refine ((hs.use_cev hcev).setEvents _).receive
      (fun _ => hs.staged (by simp [hstage])) (fun _ _ => hq) (fun _ h => ?_) (fun h => ?_) hs.bufs
    · split_ifs at h
    · split_ifs at h
  · cases h

theorem kept_prepare (hs : s.Kept) (h : s.step .prepare = some t) : t.Kept := by
  simp only [Requests.step] at h
  split at h
  · rename_i e hcev hstage
    have hq : s.mRecvQ = [] := hs.drained (by simp [hstage]) (by simp [hstage])
    split_ifs at h with ha
    · cases h
      refine hs.receive (fun h => absurd rfl h) (fun h => absurd rfl h) (fun _ _ => by simp)
        (fun h => by cases h) fun ev hev => ?_
      simp [hq] at hev
    · cases h
      refine (hs.use_cev hcev).receive (fun h => absurd rfl h)
        (fun h => absurd rfl h) (fun _ _ => ?_) (fun h => by cases h) fun ev hev => ?_
      · simp [hq, ha]
      · rw [hq, List.nil_append] at hev
        cases List.eq_of_mem_replicate hev
        exact .inr ⟨e, hcev, rfl⟩
  · cases h

theorem kept_recvAttach (hs : s.Kept) (h : s.step .recvAttach = some t) : t.Kept := by
  simp only [Requests.step] at h
  split at h
  · rename_i b q hq
    have hbufs : ∀ ev, some ev ∈ q → s.recvFailed = true ∨ ∃ e, s.cev = some e ∧ e.2 = ev :=
      fun ev hev => hs.bufs ev (by simp [hq, hev])
    split_ifs at h with hup hlast hfile <;> cases h
    · exact hs.receive (fun _ => hup.2.2) (fun _ _ => hlast) (fun _ h => by cases h)
        (fun h => by cases h) hbufs
    · exact hs.receive (fun _ => hup.2.2) (fun _ _ => hlast) (fun _ h => by cases h)
        (fun h => by cases h) hbufs
    · exact hs.receive (fun h => absurd rfl h) (fun h => absurd rfl h) (fun _ _ => hlast)
        (fun h => by cases h) hbufs
  · cases h

theorem kept_recvFile {written last : Bool} (hs : s.Kept) (hwhole : written = true ∧ last = true)
    (h : s.step (.recvFile written last) = some t) : t.Kept := by
  simp only [Requests.step] at h
  split at h
  · rename_i e hcev hq
    rw [if_pos hwhole] at h
    split_ifs at h with hup
    cases h
    have hsome : s.cev.isSome := by simp [hcev]
    exact (hs.use_cev hcev).receive (fun _ => hsome) (fun _ _ => rfl) (fun _ h => by cases h)
      (fun h => by cases h) fun ev hev => by cases hev
  · cases h

theorem kept_eventDone (hs : s.Kept) (hunsent : ∀ e, s.cev = some e → e ∉ s.unsent)
    (h : s.step .eventDone = some t) : t.Kept := by
  simp only [Requests.step] at h
  split at h
  · rename_i e hcev
    split_ifs at h with hready
    split at h
    · cases h
      have hq : s.mRecvQ = [] := hs.drained (by simp [hready.1]) (by simp [hready.1])
      refine (hs.use_cev hcev).completeCev hcev
        (hunsent e hcev) _ fun ev hev => ?_
      simp [hq] at hev
    · cases h
  · cases h

theorem kept_recvErrCb (hs : s.Kept) (h : s.step .recvErrCb = some t) : t.Kept := by
  simp only [Requests.step] at h
  split at h
  · rename_i b q hq
    split_ifs at h with hup
    split at h
    · rename_i hcev
      cases h
      exact hs.receive hs.staged (fun h => absurd hup.2 h) (fun h => by simp [hcev] at h)
        (fun _ => rfl) fun _ _ => .inl rfl
    · rename_i e hcev
      cases h
      have hmap : s.mSendEventMap.removeEntry e.1 = s.mSendEventMap := by
        have hids := hs.ids
        rw [awaited, hcev, List.map_append] at hids
        exact EventMap.removeEntry_eq_self fun h => List.disjoint_of_nodup_append hids h (by simp)
      simp only [removeEventEntry, Requests.use, hmap]
      have hsome : s.cev.isSome := by simp [hcev]
      exact (hs.use_cev hcev).receive (fun _ => hsome)
        (fun _ h => absurd rfl h) (fun _ h => by cases h) (fun _ => rfl) fun _ _ => .inl rfl
  · cases h

theorem kept_completeErr (hs : s.Kept) (hunsent : ∀ e, s.cev = some e → e ∉ s.unsent)
    (h : s.step .completeErr = some t) : t.Kept := by
  simp only [Requests.step] at h
  split at h
  · rename_i e hcev
    split_ifs at h with hfailed
    cases h
    exact hs.completeCev hcev (hunsent e hcev) _ fun _ _ => hs.broken hfailed
  · cases h

theorem kept_cleanup (hs : s.Kept) (h : s.step .cleanup = some t) : t.Kept := by
  simp only [Requests.step] at h
  split_ifs at h with hup
  cases h
  exact { hs with
    covered := fun h => by cases h
    entered := fun _ => hup.2.1
    deleted := fun h => by cases h }

theorem kept_cleanupVec {how : CleanupT} (hs : s.Kept) (h : s.step (.cleanupVec how) = some t)
    : t.Kept := by
  simp only [Requests.step] at h
  split_ifs at h with hup
  obtain ⟨⟨v, u⟩, hflush, rfl⟩ := Option.map_eq_some_iff.1 h
  have hcov : ∀ vs : List ReqVec, s.phase = .up → Covered vs := by
    intro vs h
    rw [hup.1] at h
    cases h
  unfold flushNext at hflush
  split at hflush <;> cases hflush
  · rename_i q hq
    refine hs.sendCallback s.mCurSendBlock q hup.2.2.2 ?_ (hcov _) _
    rw [vecs, hq]
    exact List.perm_middle
  · rename_i hq hcur
    refine hs.sendCallback none s.mSendQ hup.2.2.2 ?_ (hcov _) _
    simp [vecs, hq, hcur]

theorem kept_onDisconnect (hs : s.Kept) (h : s.step .onDisconnect = some t) : t.Kept := by
  simp only [Requests.step] at h
  split_ifs at h with hup
  cases h
  obtain ⟨hphase, hstage, hq, hidle, hsend, hcur⟩ := hup
  exact hs.onDisconnect hphase hstage hq hidle hsend hcur _

theorem kept_step (hs : s.Kept) (hc : s.Calm l) (h : requests.step s l = some t) : t.Kept := by
  cases l
  case refuse => exact kept_refuse hs h
  case addEventEntry id _ _ => exact kept_addEventEntry hs (hc.1 id rfl) h
  case cleanupFailedReq e => exact kept_cleanupFailedReq hs (hc.2.1 e rfl) h
  case completeFailedReq => exact kept_completeFailedReq hs h
  case postSend => exact kept_postSend hs h
  case nextVec => exact kept_nextVec hs h
  case sent => exact kept_sent hs h
  case sendCallback => exact kept_sendCallback hs h
  case sendReqCallback => exact kept_sendReqCallback hs hc.2.1 h
  case completeRemoved => exact kept_completeRemoved hs h
  case received => exact kept_received hs (hc.2.2.2.2 rfl) h
  case recvOther => exact kept_recvOther hs h
  case getAndRmEvent => exact kept_getAndRmEvent hs h
  case takeResponse => exact kept_takeResponse hs h
  case prepare => exact kept_prepare hs h
  case badAlloc => cases hc.2.2.2.1
  case recvAttach => exact kept_recvAttach hs h
  case recvFile => exact kept_recvFile hs (by simpa [RequestStep.whole] using hc.2.2.2.1) h
  case eventDone => exact kept_eventDone hs hc.2.2.1 h
  case recvErrCb => exact kept_recvErrCb hs h
  case completeErr => exact kept_completeErr hs hc.2.2.1 h
  case cleanup => exact kept_cleanup hs h
  case cleanupVec => exact kept_cleanupVec hs h
  case onDisconnect => exact kept_onDisconnect hs h

theorem kept_start : ({} : Requests).Kept where
  books := books_nil fun ev => Nat.not_lt_zero ev
  ids := List.nodup_nil
  unsent_nodup := List.nodup_nil
  unsent_sub e he := by cases he
  calls h := by cases h
  covered _ := trivial
  entered _ := rfl
  staged h := absurd rfl h
  drained h := absurd rfl h
  posted h := by cases h
  broken h := by cases h
  bufs ev h := by simp at h
  deleted h := by cases h

theorem Kept.sound (hs : s.Kept) : s.Sound where
  quiet := hs.books.quiet
  once := hs.books.quiet.count_le_one
  kept ev hev := by
    by_cases hdone : .handBack ev ∈ s.log
    · exact .inl hdone
    · exact .inr (List.mem_map.1 ((hs.books.mem_iff ev).2 ⟨hev, hdone⟩))
  settled hd hno ev hev := by
    have hheld : s.held = [] := by
      simp [held, failing, (hs.deleted hd).1, (hs.deleted hd).2, hno]
    exact hs.books.count_eq_one hev (by simp [hheld])

end Requests

/-- In a calm run each event is completed once, and nobody uses it behind that. -/
theorem completed_once {steps : List RequestStep} {s : Requests}
    (hrun : requests.run {} steps = some s) (hc : requests.Meets Requests.Calm {} steps) :
    s.Sound :=
  (requests.run_inv (fun _ _ _ => Requests.kept_step) steps Requests.kept_start hc hrun).sound

/-- One request is answered with an attachment, the other fails when the connection breaks. -/
def oneAnswered : List RequestStep :=
  [.addEventEntry 7 {} {}, .postSend (7, 0) 1, .addEventEntry 8 {} {}, .postSend (8, 1) 0,
    .nextVec, .sent, .sendCallback .DONE, .nextVec, .sent, .sendCallback .DONE, .sendReqCallback,
    .getAndRmEvent 7 0 1 false, .takeResponse, .prepare, .received, .recvAttach, .eventDone,
    .recvErrCb, .cleanup, .cleanupVec .ON_ERROR, .sendReqCallback, .completeRemoved, .onDisconnect]

theorem completed_once_each : ∃ s, requests.run {} oneAnswered = some s ∧ s.phase = .deleted ∧
    s.nextEvent = 2 ∧ s.Sound := by
  obtain ⟨s, hrun, hphase, hnext⟩ : ∃ s, requests.run {} oneAnswered = some s ∧
    s.phase = .deleted ∧ s.nextEvent = 2 := ⟨_, rfl, rfl, rfl⟩
  exact ⟨s, hrun, hphase, hnext, completed_once hrun (by decide)⟩

/-- The reply comes while the attachment is being sent. The event is completed, and the send thread
goes on reading its buffer. -/
theorem used_after_completion : ∃ steps s, requests.run {} steps = some s ∧ ¬ s.Sound := by
  refine ⟨[.addEventEntry 7 {} {}, .postSend (7, 0) 1, .nextVec, .sent, .sendCallback .DONE,
    .nextVec, .sent, .getAndRmEvent 7 4 0 false, .takeResponse, .eventDone, .sent], _, rfl,
    fun hs => ?_⟩
  have hquiet : Quiet ([.use 0, .use 0, .use 0, .use 0, .use 0] ++ [.handBack 0, .use 0]) :=
    hs.quiet
  have hlast := (List.pairwise_append.1 hquiet).2.1
  exact (List.pairwise_cons.1 hlast).1 (.use 0) List.mem_cons_self 0 rfl rfl

end Longda
