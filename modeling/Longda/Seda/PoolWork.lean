import Longda.Seda.SedaSteps

/-!
# What the steps of a pool's threads are paid with

Every step of a pool's threads is paid for by a schedule call, by an event a handler passes on or by
the start of a thread (`threads_paid`): the threads never run without getting on, however they take
turns with each other and with the rest of the program, wakeups without a signal apart.
-/

namespace Longda

open Lib

variable {ε : Type*}

/-- What a thread still takes off the potential of its pool. -/
def WorkerPc.weight : WorkerPc ε → ℕ
  | .waiting | .exited => 0
  | .looking | .signalled | .dying _ _ => 1
  | .handling _ _ none => 2
  | .popped _ | .handling _ _ (some _) => 3

namespace Worker

def weightIn (p : ℕ) (x : Worker ε) : ℕ := if x.pool = p then x.pc.weight else 0

end Worker

namespace SedaStep

/-- The thread of a pool that takes the step. -/
def thread : SedaStep ε → Option ℕ
  | .look i | .wake i | .removeEvent i | .handlerAddEvent i _ _ | .handlerSchedule i _
  | .threadKill i | .releaseEvent i => some i
  | _ => none

/-- What the step may add to the potential of a pool, and its own turn if it takes a thread on. -/
def price : SedaStep ε → ℕ
  | .addThreads _ n => n
  | .handlerAddEvent _ _ _ => 2
  | .schedule _ _ | .handlerSchedule _ _ | .killSchedule _ _ => 4
  | _ => 0

end SedaStep

namespace SedaWorld

variable {w u v : SedaWorld ε} {s r : StageId} {i p q : ℕ} {pc pc' : WorkerPc ε} {x : Worker ε}
  {l : SedaStep ε}

/-- A thread of the pool takes the step, and not because its wait ended without a signal. -/
def atWork (p : ℕ) (w : SedaWorld ε) (l : SedaStep ε) : Bool :=
  (l.thread.bind (w.workers[·]?)).any fun x => decide (x.pool = p) && !x.waitsIn p

def work (w : SedaWorld ε) (p : ℕ) : ℕ :=
  3 * (w.pools p).runQueue.length + (w.workers.map (Worker.weightIn p)).sum

theorem atWork_thread (hl : l.thread = some i) (hx : w.workers[i]? = some x) :
    w.atWork p l = (decide (x.pool = p) && !x.waitsIn p) := by
  unfold atWork
  rw [hl, Option.bind_some, hx]
  rfl

theorem atWork_le (hl : l.thread = some i) (hx : w.workers[i]? = some x) :
    (w.atWork p l).toNat ≤ if x.pool = p then 1 else 0 := by
  rw [atWork_thread hl hx]
  split_ifs with h
  · exact Bool.toNat_le _
  · simp [h]

/-- What is left to do for the threads of the pool, which an assertion that failed ends. -/
def potential (p : ℕ) (w : SedaWorld ε) : ℕ := if w.aborted.isSome then 0 else w.work p

theorem potential_le (p : ℕ) (w : SedaWorld ε) : potential p w ≤ w.work p := by
  unfold potential
  split_ifs
  · exact Nat.zero_le _
  · exact Nat.le_refl _

/-- A thread's own step is no more than there is left to do. -/
theorem atWork_le_work (hl : l.thread = some i) (hx : w.workers[i]? = some ⟨q, pc⟩)
    (hpc : 0 < pc.weight) : (w.atWork p l).toNat ≤ w.work p := by
  have hset := sum_map_set hx (Worker.weightIn p) ⟨q, .exited⟩
  have hturn := atWork_le (p := p) hl hx
  have h0 : (WorkerPc.exited : WorkerPc ε).weight = 0 := rfl
  unfold work
  unfold Worker.weightIn at hset ⊢
  dsimp only at hset hturn
  split_ifs at hset hturn with h <;> omega

theorem work_congr (hworkers : u.workers = w.workers)
    (hq : (u.pools p).runQueue = (w.pools p).runQueue) : u.work p = w.work p := by
  unfold work
  rw [hworkers, hq]

/-- A thread of the pool `q` goes on. -/
theorem work_set (hx : w.workers[i]? = some ⟨q, pc⟩) (hu : u.workers = w.workers.set i ⟨q, pc'⟩)
    (hq : (u.pools p).runQueue = (w.pools p).runQueue) :
    u.work p + (if q = p then pc.weight else 0) = w.work p + if q = p then pc'.weight else 0 := by
  have := sum_map_set hx (Worker.weightIn p) ⟨q, pc'⟩
  unfold work
  rw [hu, hq, Nat.add_assoc, Nat.add_assoc]
  exact congrArg _ this

theorem work_schedule {caller : Option ℕ} {woken : ℕ} (h : v.schedule s caller woken = some u) :
    u.work p ≤ v.work p + 4 := by
  rcases schedule_cases h with ⟨⟨a, rfl, -⟩, -⟩ | ⟨q, ws, -, rfl, hws⟩
  · exact Nat.le_add_right _ _
  · have hle : (ws.map (Worker.weightIn p)).sum ≤ (v.workers.map (Worker.weightIn p)).sum + 1 := by
      rcases hws with hwake | ⟨rfl, -⟩
      · refine sum_map_wakeOne_le hwake fun x hx => ?_
        unfold Worker.weightIn Worker.signal WorkerPc.weight
        split_ifs <;> simp
      · exact Nat.le_add_right _ _
    have hqueue := pushBack_runQueue v q s p
    unfold work
    change 3 * ((v.pushBack q s).pools p).runQueue.length + (ws.map _).sum ≤ _
    rw [hqueue]
    split_ifs with hp
    · subst hp
      rw [List.length_append, List.length_singleton]
      omega
    · omega

/-- A token is worth what a thread that takes it weighs. -/
theorem work_look (hx : w.workers[i]? = some ⟨q, pc⟩) :
    (w.look i q).work p + (if q = p then pc.weight else 0) = w.work p := by
  unfold look
  split
  · rename_i hr
    have hset := work_set (p := p) (u := (w.setPool q { w.pools q with
      nIdles := (w.pools q).nIdles + 1 }).setWorker i q .waiting) hx rfl
      (setPool_keeps Pool.runQueue (by rfl) p)
    change _ = w.work p + (if q = p then 0 else 0) at hset
    rwa [ite_self, Nat.add_zero] at hset
  · rename_i r rest hr
    have hsum := sum_map_set hx (Worker.weightIn p) ⟨q, .popped r⟩
    have hqueue : (((w.setPool q { w.pools q with runQueue := rest }).setWorker i q
        (.popped r)).pools p).runQueue = if p = q then rest else (w.pools p).runQueue := by
      change ((w.setPool q _).pools p).runQueue = _
      rw [setPool_pools]
      split_ifs <;> rfl
    change _ + (if q = p then pc.weight else 0) = _ + (if q = p then 3 else 0) at hsum
    unfold work
    rw [hqueue]
    change _ + ((w.workers.set i ⟨q, .popped r⟩).map _).sum + _ = _
    by_cases hp : q = p
    · subst hp
      simp only [if_true] at hsum ⊢
      rw [hr, List.length_cons]
      omega
    · simp only [if_neg hp, if_neg (Ne.symm hp)] at hsum ⊢
      omega

/-- A thread goes on to what weighs less by its turn, and by the price. -/
theorem paid_set {n : ℕ} (hl : l.thread = some i) (hx : w.workers[i]? = some ⟨q, pc⟩)
    (hu : u.workers = w.workers.set i ⟨q, pc'⟩)
    (hq : (u.pools p).runQueue = (w.pools p).runQueue) (hn : pc'.weight + 1 ≤ pc.weight + n) :
    u.work p + (w.atWork p l).toNat ≤ w.work p + n := by
  have hset := work_set (p := p) hx hu hq
  have hturn := atWork_le (p := p) hl hx
  by_cases hp : q = p
  · simp only [if_pos hp] at hset hturn
    omega
  · simp only [if_neg hp] at hset hturn
    omega

/-- A step of a thread that is none of the pools'. -/
theorem paid_quiet (hl : l.thread = none) (h : u.work p ≤ w.work p + l.price) :
    u.work p + (w.atWork p l).toNat ≤ w.work p + l.price := by
  unfold atWork
  rw [hl]
  exact h

/-- An assertion that fails in a thread's step ends what there is to do. -/
theorem paid_abort {a : SedaAssert} (hl : l.thread = some i)
    (hx : w.workers[i]? = some ⟨q, pc⟩) (hpc : 0 < pc.weight) :
    potential p (w.abort a) + (w.atWork p l).toNat ≤ w.work p + l.price := by
  have hturn := atWork_le_work (p := p) hl hx hpc
  have h0 : potential p (w.abort a) = 0 := rfl
  omega

theorem paid_step (hs : w.step l = some u) :
    potential p u + (w.atWork p l).toNat ≤ potential p w + l.price := by
  obtain ⟨hab, ht⟩ := takes_of_step hs
  have hpot : potential p w = w.work p := by
    unfold potential
    rw [hab]
    rfl
  rw [hpot]
  have hle := potential_le p u
  suffices h : u.work p + (w.atWork p l).toNat ≤ w.work p + l.price
      ∨ potential p u + (w.atWork p l).toNat ≤ w.work p + l.price by omega
  cases l with
  | addThreads q n =>
    obtain ⟨-, rfl⟩ := ht
    refine .inl (paid_quiet rfl ?_)
    have hqueue : ((w.setPool q { w.pools q with
        nthreads := (w.pools q).nthreads + n, added := (w.pools q).added + n }).pools p).runQueue
        = (w.pools p).runQueue := setPool_keeps Pool.runQueue (by rfl) p
    have hnew : (List.replicate n (Worker.weightIn p (⟨q, .looking⟩ : Worker ε))).sum ≤ n := by
      unfold Worker.weightIn WorkerPc.weight
      split_ifs <;> simp
    unfold work
    change 3 * ((w.setPool q _).pools p).runQueue.length + ((w.workers ++ _).map _).sum ≤ _
    rw [hqueue, List.map_append, List.sum_append, List.map_replicate]
    change _ ≤ _ + n
    omega
  | addEvent n event =>
    subst ht
    exact .inl (paid_quiet rfl (Nat.le_of_eq (work_congr rfl rfl)))
  | schedule s woken =>
    have hcall := work_schedule (p := p) ht.2
    exact .inl (paid_quiet rfl hcall)
  | look i =>
    obtain ⟨q, hx, rfl⟩ := ht
    have hlook := work_look (p := p) hx
    have hturn := atWork_le (p := p) (l := .look i) rfl hx
    simp only [WorkerPc.weight] at hlook hturn
    left
    change _ ≤ w.work p + 0
    omega
  | wake i =>
    obtain ⟨q, pc, hx, hpc, rfl⟩ := ht
    have hpool : (w.setPool q { w.pools q with nIdles := (w.pools q).nIdles - 1 }).work p
        = w.work p := work_congr rfl (setPool_keeps Pool.runQueue (by rfl) p)
    have hlook := work_look (p := p)
      (w := w.setPool q { w.pools q with nIdles := (w.pools q).nIdles - 1 }) hx
    rw [hpool] at hlook
    rw [atWork_thread (l := .wake i) rfl hx]
    left
    change _ ≤ w.work p + 0
    rcases hpc with rfl | rfl
    · simp [Worker.waitsIn, WorkerPc.weight] at hlook ⊢
      omega
    · by_cases hp : q = p <;> simp [Worker.waitsIn, WorkerPc.weight, hp] at hlook ⊢ <;> omega
  | removeEvent i =>
    obtain ⟨q, s, hx, ⟨-, rfl⟩ | ⟨event, st, -, rfl⟩⟩ := ht
    · exact .inr (paid_abort rfl hx (Nat.succ_pos _))
    · exact .inl (paid_set rfl hx rfl rfl (by simp [WorkerPc.weight]))
  | handlerAddEvent i n event =>
    obtain ⟨q, m, e, hx, rfl⟩ := ht
    refine .inl (paid_set rfl hx rfl rfl ?_)
    split_ifs <;> simp [WorkerPc.weight, SedaStep.price]
  | handlerSchedule i woken =>
    obtain ⟨q, r, e, s, hx, h⟩ := ht
    have hcall := work_schedule (p := p) h
    have hset := work_set (p := p) (u := w.setWorker i q (.handling r e none)) hx rfl rfl
    change _ + (if q = p then 3 else 0) = _ + if q = p then 2 else 0 at hset
    have hturn : (w.atWork p (.handlerSchedule i woken)).toNat ≤ if q = p then 1 else 0 :=
      atWork_le rfl hx
    left
    change _ ≤ w.work p + 4
    split_ifs at hset hturn <;> omega
  | threadKill i =>
    obtain ⟨q, k, e, hx, ⟨-, rfl⟩ | ⟨r, -, -, rfl⟩⟩ := ht
    · exact .inr (paid_abort rfl hx (Nat.succ_pos _))
    · exact .inl (paid_set rfl hx rfl (setPool_keeps Pool.runQueue (by rfl) p)
        (by simp [WorkerPc.weight]))
  | releaseEvent i =>
    obtain ⟨q, s, pc, pc', hx, ⟨n, e, rfl, rfl, rfl⟩ | ⟨e, rfl, rfl⟩, rfl⟩ := ht
    · exact .inl (paid_set rfl hx rfl rfl (by simp [WorkerPc.weight]))
    · exact .inl (paid_set rfl hx rfl rfl (by simp [WorkerPc.weight]))
  | setPool n q =>
    obtain ⟨-, rfl⟩ | ⟨-, rfl⟩ := ht <;>
      exact .inl (paid_quiet rfl (Nat.le_of_eq (work_congr rfl rfl)))
  | connect n success =>
    subst ht
    refine .inl (paid_quiet rfl (Nat.le_of_eq ?_))
    unfold connect
    split_ifs <;> exact work_congr rfl rfl
  | connectLock n =>
    obtain ⟨-, rfl⟩ := ht
    exact .inl (paid_quiet rfl (Nat.le_of_eq (work_congr rfl rfl)))
  | connectRead n backlog =>
    obtain ⟨-, rfl⟩ := ht
    exact .inl (paid_quiet rfl (Nat.le_of_eq (work_congr rfl rfl)))
  | disconnect n =>
    subst ht
    refine .inl (paid_quiet rfl (Nat.le_of_eq ?_))
    unfold disconnect
    split_ifs <;> exact work_congr rfl rfl
  | disconnectLock n =>
    obtain ⟨-, rfl⟩ := ht
    exact .inl (paid_quiet rfl (Nat.le_of_eq (work_congr rfl rfl)))
  | disconnectReturn n =>
    obtain ⟨-, -, rfl⟩ := ht
    exact .inl (paid_quiet rfl (Nat.le_of_eq (work_congr rfl rfl)))
  | killThreads k threads =>
    obtain ⟨-, rfl⟩ := ht
    refine .inl (paid_quiet rfl (Nat.le_of_eq ?_))
    unfold killThreads
    dsimp only
    split_ifs
    · rfl
    · exact work_congr rfl rfl
    · exact work_congr rfl (setPool_keeps Pool.runQueue (by rfl) p)
  | killRead k =>
    obtain ⟨n, total, -, rfl⟩ := ht
    exact .inl (paid_quiet rfl (Nat.le_of_eq (work_congr rfl (setKill_runQueue w k _ p))))
  | killConnected k =>
    obtain ⟨total, -, rfl⟩ := ht
    exact .inl (paid_quiet rfl (Nat.le_of_eq (work_congr rfl (setKill_runQueue w k _ p))))
  | killAddEvent k event =>
    obtain ⟨left, total, -, rfl⟩ := ht
    exact .inl (paid_quiet rfl (Nat.le_of_eq
      (work_congr rfl (setKill_runQueue (w.addEvent _ _) k _ p))))
  | killSchedule k woken =>
    obtain ⟨k', -, h⟩ := ht
    have hkill : (w.setKill k k').work p = w.work p := work_congr rfl (setKill_runQueue w k _ p)
    have hcall := work_schedule (p := p) h
    rw [hkill] at hcall
    exact .inl (paid_quiet rfl hcall)
  | killWait k =>
    obtain ⟨total, -, rfl⟩ := ht
    exact .inl (paid_quiet rfl (Nat.le_of_eq
      (work_congr rfl (setPool_keeps Pool.runQueue (by rfl) p))))
  | killWake k =>
    obtain ⟨total, -, rfl⟩ := ht
    refine .inl (paid_quiet rfl (Nat.le_of_eq ?_))
    unfold killDisconnect
    dsimp only
    split_ifs
    · exact work_congr rfl (setKill_runQueue w k _ p)
    · exact work_congr rfl rfl
  | killReturn k =>
    obtain ⟨total, -, -, rfl⟩ := ht
    exact .inl (paid_quiet rfl (Nat.le_of_eq (work_congr rfl (setKill_runQueue _ k _ p))))

/-- The steps of a pool's threads in a run, spurious wakeups apart, are paid for: one for each
thread started, two for each event a handler passes on, and four for each schedule call. -/
theorem threads_paid {ls : List (SedaStep ε)} (hr : (seda ε).run {} ls = some w) (p : ℕ) :
    (seda ε).tally (atWork p) {} ls ≤ (ls.map SedaStep.price).sum := by
  have hstep : ∀ (w : SedaWorld ε) l u, True → (seda ε).step w l = some u →
      True ∧ potential p u + (w.atWork p l).toNat ≤ potential p w + l.price :=
    fun _ _ _ _ hs => ⟨trivial, paid_step hs⟩
  have h := (seda ε).tally_le hstep ls trivial hr
  have h0 : potential p ({} : SedaWorld ε) = 0 := rfl
  rw [h0, Nat.zero_add] at h
  exact Nat.le_trans (Nat.le_add_left _ _) h

/-- One thread handles an event and sleeps, in four steps of its own. -/
theorem threads_paid_one_event : ∃ w, (seda ℕ).run {}
      [.addThreads 0 1, .setPool 0 0, .connect 0 true, .connectLock 0, .connectRead 0 0,
        .addEvent 0 7, .schedule (.stage 0) 0, .look 0, .removeEvent 0, .releaseEvent 0,
        .look 0] = some w
    ∧ (seda ℕ).tally (atWork 0) {} [.addThreads 0 1, .setPool 0 0, .connect 0 true,
      .connectLock 0, .connectRead 0 0, .addEvent 0 7, .schedule (.stage 0) 0, .look 0,
      .removeEvent 0, .releaseEvent 0, .look 0] ≤ 5 :=
  ⟨_, rfl, @threads_paid ℕ _ [.addThreads 0 1, .setPool 0 0, .connect 0 true,
    .connectLock 0, .connectRead 0 0, .addEvent 0 7, .schedule (.stage 0) 0, .look 0,
    .removeEvent 0, .releaseEvent 0, .look 0] rfl 0⟩

end SedaWorld

end Longda
