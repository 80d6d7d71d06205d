import Longda.Net.RecvProgress

/-!
# A socket under the receive threads

The kernel reports once that bytes have arrived, the epoll thread puts the socket into the queue of
its data thread, and the data thread takes it off and calls `recvProgress`, which leaves the socket
only when it has nothing to give or there is no vector to receive into. So bytes that have arrived
behind such a call are yet to be reported, or to be queued, or to be taken (`Attended`), however the
kernel, the epoll thread and the data thread take turns: the threads come to rest, and then all that
has arrived is received (`received_at_rest`).
-/

namespace Longda

open Lib

variable {κ : Type*}

structure RecvSide (κ : Type*) extends Receiver κ where
  /-- What the peer has written and the kernel has not got yet. -/
  coming : List UInt8 := []
  /-- Whether `epoll_wait` has an edge to report. -/
  edge : Bool := false
  /-- Whether the epoll thread is in `prepareRecv`. -/
  preparing : Bool := false
  /-- How often the socket is in `sockQ` of its data thread. -/
  sockQ : ℕ := 0

inductive PollStep where
  | arrive (n : ℕ)
  /-- An edge without new bytes, as `epoll_ctl` may bring it about. -/
  | rearm
  | epollWait
  | prepareRecv
  /-- The data thread takes the socket, as often as it is at the front, and calls `recvData`. -/
  | recvData (n : ℕ)
  | recv (l : RecvStep)

/-- The threads take the step, not the kernel. -/
def PollStep.ours : PollStep → Bool
  | .arrive _ | .rearm => false
  | _ => true

namespace RecvSide

variable (callback : Posting κ)

/-- A step within the call of `recvProgress`: `::recv` says `EAGAIN` of an empty socket only. -/
def recv (s : RecvSide κ) : RecvStep → Option (RecvSide κ)
  | .recvProgress _ => none
  | .recvNothing .again =>
    if s.unread = [] then
      (s.toReceiver.step callback (.recvNothing .again)).map fun r => { s with toReceiver := r }
    else none
  | l => (s.toReceiver.step callback l).map fun r => { s with toReceiver := r }

def step (s : RecvSide κ) : PollStep → Option (RecvSide κ)
  | .arrive n =>
    if 0 < n ∧ n ≤ s.coming.length then
      some { s with
        unread := s.unread ++ s.coming.take n, coming := s.coming.drop n, edge := true }
    else none
  | .rearm => some { s with edge := true }
  | .epollWait =>
    if s.edge ∧ ¬ s.preparing then some { s with edge := false, preparing := true } else none
  | .prepareRecv =>
    if s.preparing then some { s with preparing := false, sockQ := s.sockQ + 1 } else none
  -- a broken connection is not in the map any more
  | .recvData n =>
    if s.stage = .idle ∧ 0 < n ∧ n ≤ s.sockQ then
      some { s with sockQ := s.sockQ - n, stage := if s.broken then .idle else .turn true }
    else none
  | .recv l => s.recv callback l

/-- A connection with vectors posted, before anything arrives of the stream. -/
def start (q : List (FreshRecv κ)) (stream : List UInt8) : RecvSide κ where
  toReceiver := Receiver.start q []
  coming := stream

end RecvSide

def recvSide (callback : Posting κ) : Machine (RecvSide κ) PollStep where
  step := RecvSide.step callback

/-- What each step does, and when it can be taken. -/
inductive PollMove (callback : Posting κ) (s : RecvSide κ) : PollStep → RecvSide κ → Prop
  | arrive (n : ℕ) (hpos : 0 < n) (hle : n ≤ s.coming.length) :
    PollMove callback s (.arrive n) { s with
      unread := s.unread ++ s.coming.take n, coming := s.coming.drop n, edge := true }
  | rearm : PollMove callback s .rearm { s with edge := true }
  | epollWait (hedge : s.edge = true) (hprep : s.preparing = false) :
    PollMove callback s .epollWait { s with edge := false, preparing := true }
  | prepareRecv (hprep : s.preparing = true) :
    PollMove callback s .prepareRecv { s with preparing := false, sockQ := s.sockQ + 1 }
  | gone (n : ℕ) (hstage : s.stage = .idle) (hpos : 0 < n) (hle : n ≤ s.sockQ)
    (hbroken : s.broken = true) : PollMove callback s (.recvData n) { s with
      sockQ := s.sockQ - n, stage := .idle }
  | recvData (n : ℕ) (hstage : s.stage = .idle) (hpos : 0 < n) (hle : n ≤ s.sockQ)
    (hbroken : s.broken = false) : PollMove callback s (.recvData n) { s with
      sockQ := s.sockQ - n, stage := .turn true }
  | recv (l : RecvStep) {r : Receiver κ} (hcall : ∀ ready, l ≠ .recvProgress ready)
    (hagain : l = .recvNothing .again → s.unread = [])
    (hstep : s.toReceiver.step callback l = some r) :
    PollMove callback s (.recv l) { s with toReceiver := r }

section Steps

variable {callback : Posting κ} {s t : RecvSide κ} {l : PollStep}

theorem pollMove_of_step (h : (recvSide callback).step s l = some t) : PollMove callback s l t := by
  simp only [recvSide] at h
  cases l <;> simp only [RecvSide.step] at h
  case arrive n =>
    split_ifs at h with hn
    cases h
    exact .arrive n hn.1 hn.2
  case rearm => cases h; exact .rearm
  case epollWait =>
    split_ifs at h with hc
    cases h
    exact .epollWait hc.1 (by simpa using hc.2)
  case prepareRecv =>
    split_ifs at h with hc
    cases h
    exact .prepareRecv hc
  case recvData n =>
    split_ifs at h with hc hb
    · cases h
      exact .gone n hc.1 hc.2.1 hc.2.2 hb
    · cases h
      exact .recvData n hc.1 hc.2.1 hc.2.2 (by simpa using hb)
  case recv l =>
    have hmap : ∀ {x : Option (Receiver κ)},
        (x.map fun r => { s with toReceiver := r }) = some t →
        ∃ r, x = some r ∧ t = { s with toReceiver := r } := by
      intro x hx
      obtain ⟨r, hr, rfl⟩ := Option.map_eq_some_iff.1 hx
      exact ⟨r, hr, rfl⟩
    unfold RecvSide.recv at h
    split at h
    · cases h
    · split_ifs at h with hun
      obtain ⟨r, hr, rfl⟩ := hmap h
      exact .recv _ (fun _ h => by cases h) (fun _ => hun) hr
    · rename_i hcall hagain
      obtain ⟨r, hr, rfl⟩ := hmap h
      exact .recv l (fun ready h => hcall ready h) (fun h => absurd h hagain) hr

/-! ## What the receiver sees of it -/

/-- A step of the receiver does not depend on what is behind the bytes it takes. -/
theorem receive_before {r r' : Receiver κ} {l : RecvStep} (more : List UInt8)
    (h : (receiving callback).step r l = some r') :
    (receiving callback).step { r with unread := r.unread ++ more } l
      = some { r' with unread := r'.unread ++ more } := by
  obtain ⟨cur, q, flag, stage, unread, completed, broken⟩ := r
  simp only [receiving] at h ⊢
  cases l <;> simp only [Receiver.step, Receiver.pending] at h ⊢
  case recvProgress ready =>
    split_ifs at h ⊢
    cases h
    rfl
  case test =>
    split at h
    · cases h
      split_ifs <;> rfl
    · cases h
  case recv n =>
    split at h
    · split_ifs at h with hn
      cases h
      rw [if_pos ⟨hn.1, hn.2.1, by rw [List.length_append]; omega⟩,
        List.take_append_of_le_length hn.2.2, List.drop_append_of_le_length hn.2.2]
    · cases h
  case recvNothing atEnd =>
    cases atEnd <;> dsimp only at h ⊢ <;> split at h <;> cases h <;> simp [*]
  case complete =>
    split at h
    · split_ifs at h ⊢
      cases h
      rfl
    · cases h
  case next =>
    split at h
    · split at h <;> cases h <;> rfl
    · cases h

/-- The receiver with all of the stream before it. -/
def RecvSide.whole (s : RecvSide κ) : Receiver κ :=
  { s.toReceiver with unread := s.unread ++ s.coming }

theorem whole_step (h : PollMove callback s l t) :
    ∃ ks, (receiving callback).run s.whole ks = some t.whole := by
  cases h with
  | arrive n => exact ⟨[], by simp [RecvSide.whole]⟩
  | rearm | epollWait | prepareRecv => exact ⟨[], rfl⟩
  | gone n hstage => exact ⟨[], by simp [RecvSide.whole, ← hstage]⟩
  | recvData n hstage =>
    exact ⟨[.recvProgress true], by simp [RecvSide.whole, receiving, Receiver.step, hstage]⟩
  | @recv l r _ _ hstep =>
    refine ⟨[l], ?_⟩
    rw [Machine.run_cons, RecvSide.whole, receive_before s.coming hstep]
    rfl

theorem receiving_of_recvSide {ls : List PollStep} (hrun : (recvSide callback).run s ls = some t) :
    ∃ ks, (receiving callback).run s.whole ks = some t.whole :=
  (recvSide callback).run_sim (receiving callback) RecvSide.whole (P := fun _ => True)
    (fun _ _ _ _ _ => trivial) (fun _ _ _ _ h => whole_step (pollMove_of_step h)) ls trivial hrun

/-! ## What the threads take on and what they have to do -/

/-- What is left of a call of `recvProgress` that meets neither bytes nor the end of a vector. -/
def Receiver.weight (r : Receiver κ) : ℕ :=
  match r.stage with
  | .idle => 0
  | .turn _ => if r.mCurRecvBlock.isSome then 2 else 4
  | .loop _ => 1
  | .next _ => 3

def RecvSide.potential (s : RecvSide κ) : ℕ :=
  7 * s.edge.toNat + 6 * s.preparing.toNat + 5 * s.sockQ + s.weight + s.unread.length

/-- What the step may add to the potential, and its own turn. -/
def PollStep.price : PollStep → ℕ
  | .arrive n => 7 + n
  | .rearm => 7
  | .recv .complete => 3
  | _ => 0

theorem receive_paid {r r' : Receiver κ} {l : RecvStep} (hcall : ∀ ready, l ≠ .recvProgress ready)
    (h : (receiving callback).step r l = some r') : r'.weight + r'.unread.length + 1
      ≤ r.weight + r.unread.length + (PollStep.recv l).price := by
  obtain ⟨cur, q, flag, stage, unread, completed, broken⟩ := r
  simp only [receiving] at h
  cases l <;> simp only [Receiver.step, Receiver.pending] at h
  case recvProgress ready => exact absurd rfl (hcall ready)
  case test =>
    split at h
    · cases h
      by_cases hcur : cur.isSome = true <;> simp only [hcur, Receiver.weight, PollStep.price] <;>
        split_ifs <;> simp only <;> omega
    · cases h
  case recv n =>
    split at h
    · split_ifs at h with hn
      cases h
      simp only [Receiver.weight, List.length_drop, PollStep.price]
      omega
    · cases h
  case recvNothing atEnd =>
    cases atEnd <;> dsimp only at h <;> split at h <;> cases h <;>
      simp only [Receiver.weight, PollStep.price] <;> omega
  case complete =>
    split at h
    · split_ifs at h
      cases h
      simp only [Receiver.weight, PollStep.price]
      omega
    · cases h
  case next =>
    split at h
    · split at h <;> cases h <;>
        simp only [Receiver.weight, PollStep.price, Option.isSome_some, if_true] <;> omega
    · cases h

theorem poll_paid (h : PollMove callback s l t) :
    t.potential + l.ours.toNat ≤ s.potential + l.price := by
  unfold RecvSide.potential
  have hedge := Bool.toNat_le s.edge
  have hprep := Bool.toNat_le s.preparing
  cases h with
  | arrive n hpos hle =>
    simp only [PollStep.ours, PollStep.price, Receiver.weight, Bool.toNat_true, Bool.toNat_false,
      List.length_append, List.length_take]
    omega
  | rearm =>
    simp only [PollStep.ours, PollStep.price, Receiver.weight, Bool.toNat_true, Bool.toNat_false]
    omega
  | epollWait hedge hprep =>
    simp only [PollStep.ours, PollStep.price, Receiver.weight, Bool.toNat_true, Bool.toNat_false,
      hedge, hprep]
    omega
  | prepareRecv hprep =>
    simp only [PollStep.ours, PollStep.price, Receiver.weight, Bool.toNat_true, Bool.toNat_false,
      hprep]
    omega
  | gone n hstage hpos hle =>
    simp only [PollStep.ours, PollStep.price, Receiver.weight, Bool.toNat_true, hstage]
    omega
  | recvData n hstage hpos hle =>
    simp only [PollStep.ours, PollStep.price, Receiver.weight, Bool.toNat_true, hstage]
    split_ifs <;> omega
  | recv l hcall hagain hstep =>
    have := receive_paid hcall hstep
    simp only [PollStep.ours, Bool.toNat_true]
    omega

/-- The bytes that have arrived are taken note of, and the call of `recvProgress` is where it can go
on. -/
structure RecvSide.Attended (s : RecvSide κ) : Prop where
  /-- Behind a call, bytes that have arrived are to be reported, queued or taken. -/
  idle : s.stage = .idle → s.unread = [] ∨ s.edge = true ∨ s.preparing = true ∨ 0 < s.sockQ
    ∨ s.mCurRecvBlock = none ∧ s.mRecvQ = []
  /-- There has been no call, or the last one met a vector that waits for bytes, or none. -/
  rested : s.stage = .idle → s.Rested ∨ s.mCurRecvBlock = none ∧ s.completed = []
  turn : ∀ ready, s.stage = .turn ready → ready = true
  loop : ∀ ready, s.stage = .loop ready → ready = true ∧ s.mCurRecvBlock ≠ none
  next : ∀ ready, s.stage = .next ready → ready = true ∧ s.mCurRecvBlock = none
  room : ∀ v, s.mCurRecvBlock = some v → v.xferred ≤ v.size
  fresh : ∀ v ∈ s.mRecvQ, v.xferred = 0

/-- What the kernel and the other threads do leaves the call alone. -/
theorem RecvSide.Attended.congr (hs : s.Attended) (hcur : t.mCurRecvBlock = s.mCurRecvBlock)
    (hq : t.mRecvQ = s.mRecvQ) (hstage : t.stage = s.stage) (hdone : t.completed = s.completed)
    (hnote : s.stage = .idle → t.unread = [] ∨ t.edge = true ∨ t.preparing = true ∨ 0 < t.sockQ
      ∨ s.mCurRecvBlock = none ∧ s.mRecvQ = []) : t.Attended where
  idle := by
    rw [hstage, hcur, hq]
    exact hnote
  rested := by
    unfold Receiver.Rested Receiver.pending
    rw [hstage, hcur, hq, hdone]
    exact hs.rested
  turn := by
    rw [hstage]
    exact hs.turn
  loop := by
    rw [hstage, hcur]
    exact hs.loop
  next := by
    rw [hstage, hcur]
    exact hs.next
  room := by
    rw [hcur]
    exact hs.room
  fresh := by
    rw [hq]
    exact hs.fresh

/-! Where the call is says which of the fields there is something to show for. -/

theorem RecvSide.Attended.of_idle (hstage : t.stage = .idle)
    (hnote : t.unread = [] ∨ t.edge = true ∨ t.preparing = true ∨ 0 < t.sockQ
      ∨ t.mCurRecvBlock = none ∧ t.mRecvQ = [])
    (hrested : t.Rested) (hroom : ∀ v, t.mCurRecvBlock = some v → v.xferred ≤ v.size)
    (hfresh : ∀ v ∈ t.mRecvQ, v.xferred = 0) : t.Attended where
  idle := fun _ => hnote
  rested := fun _ => .inl hrested
  turn := fun _ h => absurd (hstage.symm.trans h) (by simp)
  loop := fun _ h => absurd (hstage.symm.trans h) (by simp)
  next := fun _ h => absurd (hstage.symm.trans h) (by simp)
  room := hroom
  fresh := hfresh

theorem RecvSide.Attended.of_turn (hstage : t.stage = .turn true)
    (hroom : ∀ v, t.mCurRecvBlock = some v → v.xferred ≤ v.size)
    (hfresh : ∀ v ∈ t.mRecvQ, v.xferred = 0) : t.Attended where
  idle := fun h => absurd (hstage.symm.trans h) (by simp)
  rested := fun h => absurd (hstage.symm.trans h) (by simp)
  turn := fun _ h => (RecvStage.turn.inj (hstage.symm.trans h)).symm
  loop := fun _ h => absurd (hstage.symm.trans h) (by simp)
  next := fun _ h => absurd (hstage.symm.trans h) (by simp)
  room := hroom
  fresh := hfresh

theorem RecvSide.Attended.of_loop (hstage : t.stage = .loop true) (hcur : t.mCurRecvBlock ≠ none)
    (hroom : ∀ v, t.mCurRecvBlock = some v → v.xferred ≤ v.size)
    (hfresh : ∀ v ∈ t.mRecvQ, v.xferred = 0) : t.Attended where
  idle := fun h => absurd (hstage.symm.trans h) (by simp)
  rested := fun h => absurd (hstage.symm.trans h) (by simp)
  turn := fun _ h => absurd (hstage.symm.trans h) (by simp)
  loop := fun _ h => ⟨(RecvStage.loop.inj (hstage.symm.trans h)).symm, hcur⟩
  next := fun _ h => absurd (hstage.symm.trans h) (by simp)
  room := hroom
  fresh := hfresh

theorem RecvSide.Attended.of_next (hstage : t.stage = .next true) (hcur : t.mCurRecvBlock = none)
    (hfresh : ∀ v ∈ t.mRecvQ, v.xferred = 0) : t.Attended where
  idle := fun h => absurd (hstage.symm.trans h) (by simp)
  rested := fun h => absurd (hstage.symm.trans h) (by simp)
  turn := fun _ h => absurd (hstage.symm.trans h) (by simp)
  loop := fun _ h => absurd (hstage.symm.trans h) (by simp)
  next := fun _ h => ⟨(RecvStage.next.inj (hstage.symm.trans h)).symm, hcur⟩
  room := fun v h => absurd (hcur.symm.trans h) (by simp)
  fresh := hfresh

theorem attended_recv {l : RecvStep} {r : Receiver κ} (hs : s.Attended)
    (hcall : ∀ ready, l ≠ .recvProgress ready)
    (hagain : l = .recvNothing .again → s.unread = [])
    (h : (receiving callback).step s.toReceiver l = some r) (hr : r.broken = false) :
    { s with toReceiver := r : RecvSide κ }.Attended := by
  simp only [receiving] at h
  cases l <;> simp only [Receiver.step] at h
  case recvProgress ready => exact absurd rfl (hcall ready)
  case test =>
    split at h
    · rename_i ready hstage
      obtain rfl := hs.turn ready hstage
      simp only [Bool.or_true, if_true, Option.some.injEq] at h
      subst h
      rcases hcur : s.mCurRecvBlock with _ | v
      · exact .of_next rfl rfl hs.fresh
      · exact .of_loop rfl (Option.some_ne_none v) (fun u hu => hs.room u (hcur.trans hu)) hs.fresh
    · cases h
  case recv n =>
    split at h
    · rename_i ready v hstage hv
      split_ifs at h with hn
      cases h
      have hroom := hs.room v (Receiver.mCurRecvBlock_of_pending hv).1
      obtain rfl := (hs.loop ready hstage).1
      refine .of_loop hstage (Option.some_ne_none _) (fun u hu => ?_) hs.fresh
      obtain rfl := Option.some.inj hu
      have hrem := hn.2.1
      simp only [IoVec.remain] at hrem
      simp only [RecvVec.got, IoVec.receive, List.length_take]
      omega
    · cases h
  case recvNothing atEnd =>
    cases atEnd <;> dsimp only at h <;> split at h <;> cases h
    · rename_i hv
      refine .of_idle rfl (.inl (hagain rfl)) (.inr ?_) hs.room hs.fresh
      change s.pending ≠ none
      rw [hv]
      exact Option.some_ne_none _
    · cases hr
    · cases hr
  case complete =>
    split at h
    · rename_i ready v hstage hv
      split_ifs at h
      cases h
      obtain rfl := (hs.loop ready hstage).1
      exact .of_next rfl rfl fun u hu => mem_post hs.fresh hu
    · cases h
  case next =>
    split at h
    · rename_i ready hstage
      obtain ⟨rfl, hnone⟩ := hs.next ready hstage
      split at h <;> cases h
      · rename_i hq
        exact .of_idle rfl (.inr (.inr (.inr (.inr ⟨hnone, hq⟩)))) (.inl ⟨hnone, hq⟩) hs.room
          hs.fresh
      · rename_i v q hq _
        refine .of_turn rfl ?_ ?_
        · intro u hu
          obtain rfl := Option.some.inj hu
          rw [hs.fresh v (by rw [hq]; exact List.mem_cons_self)]
          exact Nat.zero_le _
        · exact fun u hu => hs.fresh u (by rw [hq]; exact List.mem_cons_of_mem _ hu)
    · cases h

theorem attended_step (hs : s.broken = false → s.Attended) (h : PollMove callback s l t)
    (ht : t.broken = false) : t.Attended := by
  cases h with
  | arrive | rearm => exact (hs ht).congr rfl rfl rfl rfl fun _ => .inr (.inl rfl)
  | epollWait => exact (hs ht).congr rfl rfl rfl rfl fun _ => .inr (.inr (.inl rfl))
  | prepareRecv =>
    exact (hs ht).congr rfl rfl rfl rfl fun _ => .inr (.inr (.inr (.inl (Nat.succ_pos _))))
  | gone n _ _ _ hbroken => exact absurd (hbroken.symm.trans ht) (by simp)
  | recvData n hstage =>
    have hs := hs ht
    exact .of_turn rfl hs.room hs.fresh
  | recv l hcall hagain hstep =>
    exact attended_recv (hs (broken_back (recvMove_of_step hstep) ht)) hcall hagain hstep ht

/-! ## At rest -/

/-- The threads have nothing to do for the socket. -/
structure RecvSide.AtRest (s : RecvSide κ) : Prop where
  edge : s.edge = false
  preparing : s.preparing = false
  sockQ : s.sockQ = 0
  stage : s.stage = .idle

theorem RecvSide.Attended.progress (hs : s.Attended) :
    (∃ l t, l.ours = true ∧ (recvSide callback).step s l = some t) ∨ s.AtRest := by
  have hrecv : ∀ l, (∀ ready, l ≠ .recvProgress ready) → (l = .recvNothing .again → s.unread = []) →
      (∃ r, s.toReceiver.step callback l = some r) →
      ∃ l t, l.ours = true ∧ (recvSide callback).step s l = some t := by
    rintro l hcall hagain ⟨r, hr⟩
    refine ⟨.recv l, { s with toReceiver := r }, rfl, ?_⟩
    simp only [recvSide, RecvSide.step, RecvSide.recv]
    split
    · exact absurd rfl (hcall _)
    · rw [if_pos (hagain rfl), hr]
      rfl
    · rw [hr]
      rfl
  cases hstage : s.stage with
  | turn ready =>
    exact .inl (hrecv .test (by simp) (by simp) (by simp [Receiver.step, hstage]))
  | loop ready =>
    obtain ⟨v, hv⟩ := Option.ne_none_iff_exists'.1 (hs.loop ready hstage).2
    by_cases hdone : v.done = true
    · exact .inl (hrecv .complete (by simp) (by simp)
        (by simp [Receiver.step, hstage, hv, hdone]))
    · have hpending : s.pending = some v := by simp [Receiver.pending, hv, hdone]
      by_cases hun : s.unread = []
      · exact .inl (hrecv (.recvNothing .again) (by simp) (fun _ => hun)
          (by simp [Receiver.step, hstage, hpending]))
      · have hroom := hs.room v hv
        have hlen := List.length_pos_iff.2 hun
        have hne : v.xferred ≠ v.size := by simpa [IoVec.done] using hdone
        have hn : 0 < 1 ∧ 1 ≤ v.remain ∧ 1 ≤ s.unread.length := by
          simp only [IoVec.remain]
          omega
        exact .inl (hrecv (.recv 1) (by simp) (by simp) (by
          simp only [Receiver.step, hstage, hpending]
          rw [if_pos hn]
          exact ⟨_, rfl⟩))
  | next ready =>
    have hcur := (hs.next ready hstage).2
    refine .inl (hrecv .next (by simp) (by simp) ?_)
    rcases hq : s.mRecvQ with _ | ⟨v, q⟩ <;> simp [Receiver.step, hstage, hcur, hq]
  | idle =>
    by_cases hprep : s.preparing = true
    · exact .inl ⟨.prepareRecv, _, rfl, by simp [recvSide, RecvSide.step, hprep]; rfl⟩
    by_cases hedge : s.edge = true
    · exact .inl ⟨.epollWait, _, rfl, by simp [recvSide, RecvSide.step, hedge, hprep]; rfl⟩
    by_cases hqueue : s.sockQ = 0
    · exact .inr ⟨by simpa using hedge, by simpa using hprep, hqueue, hstage⟩
    · exact .inl ⟨.recvData s.sockQ, _, rfl,
        if_pos ⟨hstage, Nat.pos_of_ne_zero hqueue, Nat.le_refl _⟩⟩

theorem RecvSide.Attended.of_atRest (hs : s.Attended) (hrest : s.AtRest) :
    s.unread = [] ∨ s.mCurRecvBlock = none ∧ s.mRecvQ = [] := by
  rcases hs.idle hrest.stage with h | h | h | h | h
  · exact .inl h
  · exact absurd (h.symm.trans hrest.edge) (by simp)
  · exact absurd (h.symm.trans hrest.preparing) (by simp)
  · exact absurd hrest.sockQ (Nat.ne_of_gt h)
  · exact .inr h

theorem attended_start (q : List (FreshRecv κ)) (stream : List UInt8) :
    (RecvSide.start q stream).Attended where
  idle := fun _ => .inl rfl
  rested := fun _ => .inr ⟨rfl, rfl⟩
  turn := by simp [RecvSide.start, Receiver.start]
  loop := by simp [RecvSide.start, Receiver.start]
  next := by simp [RecvSide.start, Receiver.start]
  room := by simp [RecvSide.start, Receiver.start]
  fresh := fun v hv => by
    obtain ⟨u, -, rfl⟩ := List.mem_map.1 hv
    exact u.fresh

theorem attended_of_run {q : List (FreshRecv κ)} {stream : List UInt8} {ls : List PollStep}
    (hrun : (recvSide callback).run (RecvSide.start q stream) ls = some s)
    (hs : s.broken = false) : s.Attended :=
  (recvSide callback).run_inv_of_step (I := fun s => s.broken = false → s.Attended)
    (fun _ _ _ hs h ht => attended_step hs (pollMove_of_step h) ht) ls
    (fun _ => attended_start q stream) hrun hs

theorem sound_of_run {q : List (FreshRecv κ)} {stream : List UInt8} {ls : List PollStep}
    (hrun : (recvSide callback).run (RecvSide.start q stream) ls = some s)
    (hs : s.broken = false) : s.whole.filling.Sound stream := by
  obtain ⟨ks, hks⟩ := receiving_of_recvSide hrun
  exact sound_of_receiving hks hs

/-- However the kernel, the epoll thread and the data thread take turns: all that has arrived is in
the vectors, in order, or still unread; the steps of the threads are paid for by what arrived, the
edges and the vectors completed; and once they have no step to take, nothing that arrived is unread,
unless there is no vector to receive into. -/
theorem received_at_rest {q : List (FreshRecv κ)} {stream : List UInt8} {ls : List PollStep}
    (hrun : (recvSide callback).run (RecvSide.start q stream) ls = some s)
    (hs : s.broken = false) :
    s.filling.received ++ s.unread ++ s.coming = stream
      ∧ (recvSide callback).tally (fun _ l => l.ours) (RecvSide.start q stream) ls
        ≤ (ls.map PollStep.price).sum
      ∧ ((∃ l t, l.ours = true ∧ (recvSide callback).step s l = some t) ∨ s.AtRest)
      ∧ (s.AtRest → s.unread = [] ∨ s.mCurRecvBlock = none ∧ s.mRecvQ = []) := by
  have hatt := attended_of_run hrun hs
  refine ⟨?_, ?_, hatt.progress, hatt.of_atRest⟩
  · rw [List.append_assoc]
    exact (sound_of_run hrun hs).split
  · have hpaid : ∀ s l t, True → (recvSide callback).step s l = some t →
        True ∧ t.potential + l.ours.toNat ≤ s.potential + l.price :=
      fun _ _ _ _ h => ⟨trivial, poll_paid (pollMove_of_step h)⟩
    have h := (recvSide callback).tally_le hpaid ls trivial hrun
    have h0 : (RecvSide.start q stream).potential = 0 := rfl
    rw [h0, Nat.zero_add] at h
    exact Nat.le_trans (Nat.le_add_left _ _) h

end Steps

/-- The second of two bytes arrives while the data thread is in its call, which takes it. -/
theorem received_at_rest_late : ∃ s : RecvSide Unit,
    (recvSide fun _ => [twoBytes]).run (.start [twoBytes] [1, 2])
      [.arrive 1, .epollWait, .prepareRecv, .recvData 1, .recv .test, .recv .next, .recv .test,
        .recv (.recv 1), .arrive 1, .recv (.recv 1), .recv .complete, .epollWait, .recv .next,
        .recv .test, .recv (.recvNothing .again), .prepareRecv, .recvData 1, .recv .test,
        .recv (.recvNothing .again)] = some s
    ∧ s.AtRest ∧ s.filling.received ++ s.unread ++ s.coming = [1, 2] ∧ s.unread = [] := by
  obtain ⟨s, hrun, hs, hrest, hcur⟩ : ∃ s : RecvSide Unit,
      (recvSide fun _ => [twoBytes]).run (.start [twoBytes] [1, 2])
        [.arrive 1, .epollWait, .prepareRecv, .recvData 1, .recv .test, .recv .next, .recv .test,
          .recv (.recv 1), .arrive 1, .recv (.recv 1), .recv .complete, .epollWait, .recv .next,
          .recv .test, .recv (.recvNothing .again), .prepareRecv, .recvData 1, .recv .test,
          .recv (.recvNothing .again)] = some s
      ∧ s.broken = false ∧ s.AtRest ∧ s.mCurRecvBlock ≠ none :=
    ⟨_, rfl, rfl, ⟨rfl, rfl, rfl, rfl⟩, Option.some_ne_none _⟩
  obtain ⟨hsplit, -, -, hend⟩ := received_at_rest hrun hs
  exact ⟨s, hrun, hrest, hsplit, (hend hrest).resolve_right fun h => hcur h.1⟩

end Longda
