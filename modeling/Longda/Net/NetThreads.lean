import Longda.Conf.Ini

/-!
# Starting the threads of the net

`startThreads` starts a send thread and a receive thread for each index, and each finds its
parameter by the index in the list of its kind, in which it is entered before it is created. The
states that the lists go through are kept in order. A receive thread that cannot be created takes
the last send thread out of its list and stays in its own, and without a count there are no threads
and no error (`startsRight_iff`).
-/

namespace Longda

/-- The thread that a `DataThreadParam` was made for. -/
structure DataThread where
  threadIndex : ℕ
  isSend : Bool
  deriving DecidableEq

/-- The lists, the data threads that have been started, and the one that is being created. -/
structure NetThreads where
  sendDataThreads : List DataThread := []
  recvDataThreads : List DataThread := []
  started : List DataThread := []
  creating : Option DataThread := none
  deriving DecidableEq

/-- What each `pthread_create` returns. -/
structure ThreadCreation where
  recvEPollThread : Int32 := 0
  sendEPollThread : Int32 := 0
  dataThread : DataThread → Int32

/-- What is returned, and the lists as they are one after another. -/
abbrev Start := Int32 × List NetThreads

namespace NetThreads

variable (creation : ThreadCreation)

def startDataThread (s : NetThreads) (t : DataThread) : Start × NetThreads :=
  let rc := creation.dataThread t
  if t.isSend then
    let pushed := { s with sendDataThreads := s.sendDataThreads ++ [t], creating := some t }
    let done :=
      if rc ≠ 0 then
        { pushed with sendDataThreads := pushed.sendDataThreads.dropLast, creating := none }
      else { pushed with started := pushed.started ++ [t], creating := none }
    ((rc, [pushed, done]), done)
  else
    let pushed := { s with recvDataThreads := s.recvDataThreads ++ [t], creating := some t }
    let done :=
      if rc ≠ 0 then
        { pushed with sendDataThreads := pushed.sendDataThreads.dropLast, creating := none }
      else { pushed with started := pushed.started ++ [t], creating := none }
    ((rc, [pushed, done]), done)

/-- The loop from index `i` on, with `n` turns to go. -/
def startDataThreads : ℕ → ℕ → NetThreads → Start × NetThreads
  | 0, _, s => ((0, []), s)
  | n + 1, i, s =>
    let ((rc, points), s) := s.startDataThread creation ⟨i, true⟩
    if rc ≠ 0 then ((rc, points), s)
    else
      let ((rc, points'), s) := s.startDataThread creation ⟨i, false⟩
      if rc ≠ 0 then ((rc, points ++ points'), s)
      else
        let ((rc, later), s) := startDataThreads n (i + 1) s
        ((rc, points ++ points' ++ later), s)

def netThreadCount (props : CIni) : ℤ :=
  (CLstring.strToVal (props.get (ascii "NetThreadCount") (ascii "8") (ascii "Default"))).2

def startThreads (props : CIni) (s : NetThreads) : Start × NetThreads :=
  if creation.recvEPollThread ≠ 0 then ((creation.recvEPollThread, [s]), s)
  else if creation.sendEPollThread ≠ 0 then ((creation.sendEPollThread, [s]), s)
  else
    let ((rc, points), t) := s.startDataThreads creation (netThreadCount props).toNat 0
    ((rc, s :: points), t)

/-- The thread a socket is handed to, if the modulus is by a number of threads. -/
def pick (threads : List DataThread) (sock : Int32) : Option DataThread :=
  if threads.length = 0 then none
  else threads[sock.toInt64.toUInt64.toNat % threads.length]?

def prepareSend (s : NetThreads) (sock : Int32) : Option DataThread := pick s.sendDataThreads sock

def prepareRecv (s : NetThreads) (sock : Int32) : Option DataThread := pick s.recvDataThreads sock

/-- The threads that have been started, and the one that is being created. -/
def alive (s : NetThreads) : List DataThread := s.started ++ s.creating.toList

/-- The lists hold the threads of their kind in the order of their indices, and no others. -/
structure Exact (s : NetThreads) : Prop where
  send : s.sendDataThreads = s.alive.filter (·.isSend)
  recv : s.recvDataThreads = s.alive.filter fun t => !t.isSend
  sendOrder : s.sendDataThreads.map (·.threadIndex) = List.range s.sendDataThreads.length
  recvOrder : s.recvDataThreads.map (·.threadIndex) = List.range s.recvDataThreads.length

/-- The lists are exact all the time, and where no error is returned each socket has its threads. -/
def StartsRight (props : CIni) : Prop :=
  let ((rc, points), s) := startThreads creation props {}
  (∀ p ∈ points, p.Exact) ∧ (rc = 0 → s.sendDataThreads ≠ [] ∧ s.recvDataThreads ≠ []
    ∧ ∀ sock, (s.prepareSend sock).isSome ∧ (s.prepareRecv sock).isSome)

/-- The creation of receive thread `j` is come to, from index `i` on. -/
def Reached (i j : ℕ) : Prop :=
  (∀ l, i ≤ l → l ≤ j → creation.dataThread ⟨l, true⟩ = 0)
    ∧ ∀ l, i ≤ l → l < j → creation.dataThread ⟨l, false⟩ = 0

/-- Each receive thread whose creation is come to is created. -/
def RecvCreated (i n : ℕ) : Prop :=
  ∀ j, i ≤ j → j < i + n → Reached creation i j → creation.dataThread ⟨j, false⟩ = 0

variable {creation} {s : NetThreads} {i n : ℕ}

theorem recvCreated_succ : RecvCreated creation i (n + 1) ↔
    creation.dataThread ⟨i, true⟩ ≠ 0
      ∨ creation.dataThread ⟨i, false⟩ = 0 ∧ RecvCreated creation (i + 1) n := by
  constructor
  · intro h
    by_cases hsend : creation.dataThread ⟨i, true⟩ = 0
    · have hrecv : creation.dataThread ⟨i, false⟩ = 0 := by
        refine h i (Nat.le_refl i) (by omega) ⟨fun l hl hl' => ?_, fun l hl hl' => by omega⟩
        rwa [Nat.le_antisymm hl' hl]
      refine .inr ⟨hrecv, fun j hj hj' hreached => ?_⟩
      refine h j (by omega) (by omega) ⟨fun l hl hl' => ?_, fun l hl hl' => ?_⟩
      · rcases Nat.eq_or_lt_of_le hl with rfl | hlt
        · exact hsend
        · exact hreached.1 l hlt hl'
      · rcases Nat.eq_or_lt_of_le hl with rfl | hlt
        · exact hrecv
        · exact hreached.2 l hlt hl'
    · exact .inl hsend
  · rintro (hsend | ⟨hrecv, h⟩) j hj hj' hreached
    · exact absurd (hreached.1 i (Nat.le_refl i) hj) hsend
    · rcases Nat.eq_or_lt_of_le hj with rfl | hlt
      · exact hrecv
      · exact h j hlt (by omega) ⟨fun l hl => hreached.1 l (by omega),
          fun l hl => hreached.2 l (by omega)⟩

/-- Nothing is being created, and so many threads of each kind have been started. -/
structure Started (s : NetThreads) (send recv : ℕ) : Prop where
  exact : s.Exact
  idle : s.creating = none
  send : s.sendDataThreads.length = send
  recv : s.recvDataThreads.length = recv

variable {t : NetThreads}

theorem Exact.congr (h : s.Exact) (hs : t.sendDataThreads = s.sendDataThreads)
    (hr : t.recvDataThreads = s.recvDataThreads) (ha : t.alive = s.alive) : t.Exact := by
  refine ⟨?_, ?_, ?_, ?_⟩
  · rw [hs, ha, h.send]
  · rw [hr, ha, h.recv]
  · rw [hs, h.sendOrder]
  · rw [hr, h.recvOrder]

theorem map_threadIndex_concat {l : List DataThread} (b : Bool)
    (h : l.map (·.threadIndex) = List.range l.length) :
    (l ++ [DataThread.mk l.length b]).map (·.threadIndex)
      = List.range (l ++ [DataThread.mk l.length b]).length := by
  rw [List.map_append, h, List.length_append, List.length_singleton, List.range_succ]
  rfl

theorem Exact.pushSend (h : s.Exact)
    (hs : t.sendDataThreads = s.sendDataThreads ++ [⟨s.sendDataThreads.length, true⟩])
    (hr : t.recvDataThreads = s.recvDataThreads)
    (ha : t.alive = s.alive ++ [⟨s.sendDataThreads.length, true⟩]) : t.Exact := by
  refine ⟨?_, ?_, ?_, ?_⟩
  · rw [hs, ha, List.filter_append, ← h.send]
    rfl
  · rw [hr, ha, List.filter_append, ← h.recv]
    exact (List.append_nil _).symm
  · rw [hs, map_threadIndex_concat true h.sendOrder]
  · rw [hr, h.recvOrder]

theorem Exact.pushRecv (h : s.Exact) (hs : t.sendDataThreads = s.sendDataThreads)
    (hr : t.recvDataThreads = s.recvDataThreads ++ [⟨s.recvDataThreads.length, false⟩])
    (ha : t.alive = s.alive ++ [⟨s.recvDataThreads.length, false⟩]) : t.Exact := by
  refine ⟨?_, ?_, ?_, ?_⟩
  · rw [hs, ha, List.filter_append, ← h.send]
    exact (List.append_nil _).symm
  · rw [hr, ha, List.filter_append, ← h.recv]
    rfl
  · rw [hs, h.sendOrder]
  · rw [hr, map_threadIndex_concat false h.recvOrder]

theorem alive_of_idle (h : s.creating = none) : s.alive = s.started := by
  simp [alive, h]

variable {a b : ℕ}

/-- The creation of a send thread, whether it is created or not. -/
theorem Started.startSend (creation : ThreadCreation) (h : s.Started a b) : ∃ points t,
    s.startDataThread creation ⟨a, true⟩ = ((creation.dataThread ⟨a, true⟩, points), t)
      ∧ (∀ p ∈ points, p.Exact)
      ∧ (creation.dataThread ⟨a, true⟩ = 0 → t.Started (a + 1) b) := by
  obtain ⟨hexact, hidle, rfl, rfl⟩ := h
  have halive := alive_of_idle hidle
  unfold startDataThread
  refine ⟨_, _, rfl, ?_, fun hrc => ?_⟩
  · simp only [List.mem_cons, List.not_mem_nil, or_false, forall_eq_or_imp, forall_eq]
    refine ⟨hexact.pushSend rfl rfl (by rw [halive]; rfl), ?_⟩
    split_ifs with hrc
    · exact hexact.congr (List.dropLast_concat) rfl (by rw [halive]; simp [alive])
    · exact hexact.pushSend rfl rfl (by rw [halive]; simp [alive])
  · simp only [hrc, ne_eq, not_true_eq_false, if_false]
    exact ⟨hexact.pushSend rfl rfl (by rw [halive]; simp [alive]), rfl, by simp, rfl⟩

/-- The creation of a receive thread keeps the lists exact only if the thread is created. -/
theorem Started.startRecv (creation : ThreadCreation) (h : s.Started a b) : ∃ points t,
    s.startDataThread creation ⟨b, false⟩ = ((creation.dataThread ⟨b, false⟩, points), t)
      ∧ ((∀ p ∈ points, p.Exact) ↔ creation.dataThread ⟨b, false⟩ = 0)
      ∧ (creation.dataThread ⟨b, false⟩ = 0 → t.Started a (b + 1)) := by
  obtain ⟨hexact, hidle, rfl, rfl⟩ := h
  have halive := alive_of_idle hidle
  unfold startDataThread
  refine ⟨_, _, rfl, ?_, fun hrc => ?_⟩
  · simp only [List.mem_cons, List.not_mem_nil, or_false, forall_eq_or_imp, forall_eq]
    constructor
    · rintro ⟨-, hdone⟩
      by_contra hrc
      rw [if_pos hrc] at hdone
      have hrecv := hdone.recv
      have hold := hexact.recv
      rw [halive] at hold
      simp [alive, ← hold] at hrecv
    · intro hrc
      refine ⟨hexact.pushRecv rfl rfl (by rw [halive]; rfl), ?_⟩
      rw [if_neg (by simpa using hrc)]
      exact hexact.pushRecv rfl rfl (by rw [halive]; simp [alive])
  · simp only [if_false, hrc, ne_eq, not_true_eq_false]
    exact ⟨hexact.pushRecv rfl rfl (by rw [halive]; simp [alive]), rfl, rfl, by simp⟩

/-- The loop from index `i` on. -/
theorem Started.startDataThreads (creation : ThreadCreation) (h : s.Started i i) (n : ℕ) :
    ∃ rc points t, s.startDataThreads creation n i = ((rc, points), t)
      ∧ ((∀ p ∈ points, p.Exact) ↔ RecvCreated creation i n)
      ∧ (rc = 0 → t.Started (i + n) (i + n)) := by
  induction n generalizing i s with
  | zero => exact ⟨0, [], s, rfl, iff_of_true (by simp) (fun j hj hj' => by omega), fun _ => h⟩
  | succ n ih =>
    obtain ⟨points, u, hstart, hexact, hnext⟩ := h.startSend creation
    unfold NetThreads.startDataThreads
    rw [hstart, recvCreated_succ]
    dsimp only
    by_cases hsend : creation.dataThread ⟨i, true⟩ = 0
    · rw [if_neg (not_not.2 hsend), or_iff_right (not_not.2 hsend)]
      obtain ⟨points', v, hstart', hexact', hnext'⟩ := (hnext hsend).startRecv creation
      rw [hstart']
      dsimp only
      by_cases hrecv : creation.dataThread ⟨i, false⟩ = 0
      · rw [if_neg (not_not.2 hrecv)]
        obtain ⟨rc, later, t, hloop, hiff, hlast⟩ := ih (hnext' hrecv)
        rw [hloop]
        refine ⟨_, _, _, rfl, ?_, fun h0 => ?_⟩
        · simp only [List.mem_append, or_imp, forall_and, hrecv, true_and, ← hiff]
          exact and_iff_right ⟨hexact, hexact'.2 hrecv⟩
        · rw [Nat.add_right_comm i 1 n] at hlast
          exact hlast h0
      · rw [if_pos hrecv]
        refine ⟨_, _, _, rfl, iff_of_false (fun hall => hrecv ?_) fun hc => hrecv hc.1,
          fun h0 => absurd h0 hrecv⟩
        exact hexact'.1 fun p hp => hall p (List.mem_append_right _ hp)
    · rw [if_pos hsend]
      exact ⟨_, _, _, rfl, iff_of_true hexact (.inl hsend), fun h0 => absurd h0 hsend⟩

theorem started_empty : ({} : NetThreads).Started 0 0 := ⟨⟨rfl, rfl, rfl, rfl⟩, rfl, rfl, rfl⟩

theorem isSome_pick {threads : List DataThread} (h : threads ≠ []) (sock : Int32) :
    (pick threads sock).isSome := by
  have hlen : threads.length ≠ 0 := fun h0 => h (List.length_eq_zero_iff.1 h0)
  unfold pick
  rw [if_neg hlen, List.getElem?_eq_getElem (Nat.mod_lt _ (Nat.pos_of_ne_zero hlen))]
  rfl

/-- For every count that is configured and whatever the creations return. -/
theorem startsRight_iff (creation : ThreadCreation) (props : CIni) :
    StartsRight creation props ↔ creation.recvEPollThread ≠ 0 ∨ creation.sendEPollThread ≠ 0
      ∨ 1 ≤ netThreadCount props ∧ RecvCreated creation 0 (netThreadCount props).toNat := by
  unfold StartsRight startThreads
  by_cases hrecv : creation.recvEPollThread = 0
  · by_cases hsend : creation.sendEPollThread = 0
    · rw [if_neg (not_not.2 hrecv), if_neg (not_not.2 hsend)]
      obtain ⟨rc, points, t, hloop, hiff, hlast⟩ :=
        started_empty.startDataThreads creation (netThreadCount props).toNat
      rw [hloop, or_iff_right (not_not.2 hrecv), or_iff_right (not_not.2 hsend), ← hiff]
      dsimp only
      rw [List.forall_mem_cons, and_iff_right started_empty.exact, and_comm]
      refine and_congr_left fun _ => ?_
      constructor
      · intro hsuccess
        by_contra hcount
        have h0 : (netThreadCount props).toNat = 0 := by omega
        rw [h0] at hloop
        cases hloop
        exact (hsuccess rfl).1 rfl
      · intro hcount h0
        obtain ⟨-, -, hs, hr⟩ := hlast h0
        have hs' : t.sendDataThreads ≠ [] := List.ne_nil_of_length_pos (by omega)
        have hr' : t.recvDataThreads ≠ [] := List.ne_nil_of_length_pos (by omega)
        exact ⟨hs', hr', fun sock => ⟨isSome_pick hs' sock, isSome_pick hr' sock⟩⟩
    · rw [if_neg (not_not.2 hrecv), if_pos hsend]
      refine iff_of_true ⟨?_, fun h0 => absurd h0 hsend⟩ (.inr (.inl hsend))
      exact fun p hp => List.mem_singleton.1 hp ▸ started_empty.exact
  · rw [if_pos hrecv]
    refine iff_of_true ⟨?_, fun h0 => absurd h0 hrecv⟩ (.inl hrecv)
    exact fun p hp => List.mem_singleton.1 hp ▸ started_empty.exact

/-- The first receive thread cannot be created. -/
theorem not_startsRight_recv : ¬ ∀ (creation : ThreadCreation) (props : CIni),
    StartsRight creation props := by
  intro h
  have hexact := (h ⟨0, 0, fun t => if t = ⟨0, false⟩ then 11 else 0⟩ {}).1
    ⟨[], [⟨0, false⟩], [⟨0, true⟩], none⟩ (by decide)
  exact absurd hexact.recv (by decide)

end NetThreads

end Longda
