import Longda.Seda.SedaSteps

/-!
# No wakeup of a pool is lost

`schedule` signals the run condition unless the run queue was empty and its caller is a thread of
the pool, which then finds the token itself when it comes back to the loop. So while a thread of the
pool sleeps unsignalled, the threads that are awake and will come back to the loop are no fewer than
the tokens in the run queue (`Attended`).
-/

namespace Longda

open Lib

variable {ε : Type*}

namespace StageId

def isKiller : StageId → Bool
  | .stage _ => false
  | .killer _ => true

end StageId

namespace Worker

/-- The thread is between the two counts of `nIdles`. -/
def idleIn (p : ℕ) (x : Worker ε) : Bool :=
  decide (x.pool = p) && match x.pc with
    | .waiting | .signalled => true
    | _ => false

/-- The thread of the pool is awake and comes back to the loop. -/
def awakeIn (p : ℕ) (x : Worker ε) : Bool :=
  decide (x.pool = p) && match x.pc with
    | .looking | .signalled => true
    | .popped s | .handling s _ _ => !s.isKiller
    | .waiting | .dying _ _ | .exited => false

theorem waitsIn_pool {p : ℕ} {x : Worker ε} (h : x.waitsIn p = true) : x.pool = p := by
  unfold waitsIn at h
  simp only [Bool.and_eq_true, decide_eq_true_eq] at h
  exact h.1

theorem waitsIn_pc {p : ℕ} {x : Worker ε} (h : x.waitsIn p = true) : x.pc = .waiting := by
  unfold waitsIn at h
  obtain ⟨q, pc⟩ := x
  cases pc <;> simp at h ⊢

end Worker

namespace SedaWorld

variable {w u v : SedaWorld ε} {s : StageId} {i p q : ℕ} {pc pc' : WorkerPc ε}

/-- The threads of the pool that are blocked on the run condition and not signalled. -/
def blocked (w : SedaWorld ε) (p : ℕ) : ℕ := w.workers.countP (Worker.waitsIn p)

def idle (w : SedaWorld ε) (p : ℕ) : ℕ := w.workers.countP (Worker.idleIn p)

/-- The threads of the pool that are awake and not about to die. -/
def awake (w : SedaWorld ε) (p : ℕ) : ℕ := w.workers.countP (Worker.awakeIn p)

/-- While a thread of the pool is blocked, the awake ones are enough for the run queue. -/
def Attended (w : SedaWorld ε) (p : ℕ) : Prop :=
  0 < w.blocked p → (w.pools p).runQueue.length ≤ w.awake p

structure Wakeful (w : SedaWorld ε) (p : ℕ) : Prop where
  nIdles : (w.pools p).nIdles = w.idle p
  attended : w.Attended p

theorem blocked_le_idle (w : SedaWorld ε) (p : ℕ) : w.blocked p ≤ w.idle p := by
  refine List.countP_mono_left fun x _ hx => ?_
  unfold Worker.waitsIn at hx
  unfold Worker.idleIn
  rcases x with ⟨q, pc⟩
  cases pc <;> simp at hx ⊢
  exact hx

/-- A step that leaves the run queue, the count of the idle threads and what the threads are to the
pool. -/
theorem Wakeful.congr (hw : w.Wakeful p) (hq : (u.pools p).runQueue = (w.pools p).runQueue)
    (hn : (u.pools p).nIdles = (w.pools p).nIdles) (hi : u.idle p = w.idle p)
    (hb : u.blocked p = w.blocked p) (ha : w.awake p ≤ u.awake p) : u.Wakeful p where
  nIdles := by rw [hn, hi, hw.nIdles]
  attended := by
    unfold Attended
    rw [hb, hq]
    exact fun h => Nat.le_trans (hw.attended h) ha

/-- A thread goes on to something that is the same to the pools. -/
theorem wakeful_set (hw : w.Wakeful q) (hx : w.workers[i]? = some ⟨p, pc⟩)
    (hu : u.workers = w.workers.set i ⟨p, pc'⟩)
    (hq : (u.pools q).runQueue = (w.pools q).runQueue)
    (hn : (u.pools q).nIdles = (w.pools q).nIdles)
    (hi : Worker.idleIn q ⟨p, pc'⟩ = Worker.idleIn q ⟨p, pc⟩)
    (hb : Worker.waitsIn q ⟨p, pc'⟩ = Worker.waitsIn q ⟨p, pc⟩)
    (ha : Worker.awakeIn q ⟨p, pc⟩ = true → Worker.awakeIn q ⟨p, pc'⟩ = true) : u.Wakeful q := by
  have hci := countP_set hx (Worker.idleIn q) ⟨p, pc'⟩
  have hcb := countP_set hx (Worker.waitsIn q) ⟨p, pc'⟩
  have hca := countP_set hx (Worker.awakeIn q) ⟨p, pc'⟩
  rw [hi] at hci
  rw [hb] at hcb
  have hle : (Worker.awakeIn q (⟨p, pc⟩ : Worker ε)).toNat
      ≤ (Worker.awakeIn q (⟨p, pc'⟩ : Worker ε)).toNat := by
    rcases hpc : Worker.awakeIn q (⟨p, pc⟩ : Worker ε)
    · exact Nat.zero_le _
    · exact Nat.le_of_eq (congrArg Bool.toNat (ha hpc)).symm
  refine hw.congr hq hn ?_ ?_ ?_
  · unfold idle
    rw [hu]
    omega
  · unfold blocked
    rw [hu]
    omega
  · unfold awake
    rw [hu]
    omega

/-- A signal of the pool wakes one of its threads, or finds none that is blocked. -/
theorem wakeful_signal {woken : ℕ} {ws : List (Worker ε)}
    (h : wakeOne (Worker.waitsIn p) Worker.signal v.workers woken = some ws) :
    ws.countP (Worker.idleIn p) = v.idle p
      ∧ (v.blocked p = 0 ∧ ws.countP (Worker.waitsIn p) = 0
        ∨ ws.countP (Worker.waitsIn p) + 1 = v.blocked p
          ∧ ws.countP (Worker.awakeIn p) = v.awake p + 1) := by
  rcases wakeOne_eq_some.1 h with ⟨h0, rfl⟩ | ⟨x, hx, hwait, rfl⟩
  · exact ⟨rfl, .inl ⟨h0, h0⟩⟩
  · have hpool := Worker.waitsIn_pool hwait
    have hpc := Worker.waitsIn_pc hwait
    obtain ⟨r, pc⟩ := x
    dsimp only at hpool hpc
    subst hpool hpc
    have hi := countP_set hx (Worker.idleIn r) ⟨r, .signalled⟩
    have hb := countP_set hx (Worker.waitsIn r) ⟨r, .signalled⟩
    have ha := countP_set hx (Worker.awakeIn r) ⟨r, .signalled⟩
    simp only [Worker.idleIn, Worker.waitsIn, Worker.awakeIn, decide_true, Bool.and_true,
      Bool.and_false, Bool.toNat_true, Bool.toNat_false, Nat.add_zero] at hi hb ha
    exact ⟨Nat.add_right_cancel hi, .inr ⟨hb, ha⟩⟩

/-- `schedule` in a thread that is awake if it is one of the pool. -/
theorem wakeful_schedule {caller : Option ℕ} {woken : ℕ} (hv : ∀ q, v.Wakeful q)
    (hcaller : ∀ p, caller = some p → 0 < v.awake p) (h : v.schedule s caller woken = some u)
    (q : ℕ) : u.Wakeful q := by
  rcases schedule_cases h with ⟨⟨a, rfl, -⟩, -⟩ | ⟨p, ws, -, rfl, hws⟩
  · exact (hv q).congr rfl rfl rfl rfl (Nat.le_refl _)
  · by_cases hq : q = p
    · subst hq
      have hpool : (v.pushBack q s).pools q
          = { v.pools q with runQueue := (v.pools q).runQueue ++ [s] } := Function.update_self _ _ _
      have hn : ((v.pushBack q s).pools q).nIdles = v.idle q := by
        rw [hpool]
        exact (hv q).nIdles
      have hlen : ((v.pushBack q s).pools q).runQueue.length = (v.pools q).runQueue.length + 1 := by
        rw [hpool, List.length_append, List.length_singleton]
      have hatt := (hv q).attended
      unfold Attended at hatt
      rcases hws with hsig | ⟨rfl, hno⟩
      · obtain ⟨hi, ⟨-, h0⟩ | ⟨hb, ha⟩⟩ := wakeful_signal hsig
        · refine ⟨hn.trans hi.symm, fun hpos => ?_⟩
          exact absurd h0 (Nat.ne_of_gt hpos)
        · refine ⟨hn.trans hi.symm, fun hpos => ?_⟩
          have := hatt (by omega)
          show ((v.pushBack q s).pools q).runQueue.length ≤ ws.countP (Worker.awakeIn q)
          omega
      · refine ⟨hn, fun hpos => ?_⟩
        have hpos : 0 < v.blocked q := hpos
        show ((v.pushBack q s).pools q).runQueue.length ≤ v.awake q
        rcases hno with ⟨hempty, hc⟩ | h0
        · rw [hlen, hempty]
          exact hcaller q hc
        · have := blocked_le_idle v q
          have := (hv q).nIdles
          omega
    · have hpool : (v.pushBack p s).pools q = v.pools q := Function.update_of_ne hq _ _
      have hcount : ∀ f : Worker ε → Bool, (∀ x, x.pool = p → f x = false) →
          ws.countP f = v.workers.countP f := by
        intro f hf
        rcases hws with hsig | ⟨rfl, -⟩
        · refine countP_wakeOne hsig fun x hx => ?_
          have hp := Worker.waitsIn_pool hx
          rw [hf x hp, hf x.signal hp]
        · rfl
      have hne : ∀ x : Worker ε, x.pool = p → decide (x.pool = q) = false := by
        rintro x rfl
        exact decide_eq_false (Ne.symm hq)
      refine (hv q).congr (congrArg Pool.runQueue hpool) (congrArg Pool.nIdles hpool)
        (hcount _ fun x hx => ?_) (hcount _ fun x hx => ?_)
        (Nat.le_of_eq (hcount _ fun x hx => ?_).symm)
      · unfold Worker.idleIn
        rw [hne x hx, Bool.false_and]
      · unfold Worker.waitsIn
        rw [hne x hx, Bool.false_and]
      · unfold Worker.awakeIn
        rw [hne x hx, Bool.false_and]

/-- A thread looks at the run queue, where `nIdles` counts the other idle ones. -/
theorem wakeful_look (hx : v.workers[i]? = some ⟨p, pc⟩)
    (hn : (v.pools p).nIdles + (Worker.idleIn p (⟨p, pc⟩ : Worker ε)).toNat = v.idle p)
    (hatt : v.Attended p) : (v.look i p).Wakeful p := by
  unfold look
  split
  · rename_i hr
    have hi := countP_set hx (Worker.idleIn p) ⟨p, .waiting⟩
    have hself : Worker.idleIn p (⟨p, .waiting⟩ : Worker ε) = true := by simp [Worker.idleIn]
    rw [hself] at hi
    have hpool : ((v.setPool p { v.pools p with nIdles := (v.pools p).nIdles + 1 }).setWorker i p
        .waiting).pools p = { v.pools p with nIdles := (v.pools p).nIdles + 1 } :=
      Function.update_self _ _ _
    constructor
    · rw [hpool]
      show (v.pools p).nIdles + 1 = (v.workers.set i ⟨p, .waiting⟩).countP (Worker.idleIn p)
      unfold idle at hn
      simp only [Bool.toNat_true] at hi
      omega
    · intro _
      rw [hpool, hr]
      exact Nat.zero_le _
  · rename_i r rest hr
    have hi := countP_set hx (Worker.idleIn p) ⟨p, .popped r⟩
    have hb := countP_set hx (Worker.waitsIn p) ⟨p, .popped r⟩
    have ha := countP_set hx (Worker.awakeIn p) ⟨p, .popped r⟩
    have hi0 : Worker.idleIn p (⟨p, .popped r⟩ : Worker ε) = false := by simp [Worker.idleIn]
    have hb0 : Worker.waitsIn p (⟨p, .popped r⟩ : Worker ε) = false := by simp [Worker.waitsIn]
    rw [hi0] at hi
    rw [hb0] at hb
    have hpool : ((v.setPool p { v.pools p with runQueue := rest }).setWorker i p
        (.popped r)).pools p = { v.pools p with runQueue := rest } := Function.update_self _ _ _
    have hle := Bool.toNat_le (Worker.awakeIn p (⟨p, pc⟩ : Worker ε))
    simp only [Bool.toNat_false, Nat.add_zero] at hi hb
    constructor
    · rw [hpool]
      show (v.pools p).nIdles = (v.workers.set i ⟨p, .popped r⟩).countP (Worker.idleIn p)
      unfold idle at hn
      omega
    · intro hpos
      rw [hpool]
      show rest.length ≤ (v.workers.set i ⟨p, .popped r⟩).countP (Worker.awakeIn p)
      have hpos : 0 < (v.workers.set i ⟨p, .popped r⟩).countP (Worker.waitsIn p) := hpos
      have := hatt (show 0 < v.workers.countP (Worker.waitsIn p) by omega)
      rw [hr, List.length_cons] at this
      unfold awake at this
      omega

/-- A step of another pool's thread. -/
theorem wakeful_other (hw : w.Wakeful q) (hne : q ≠ p) (hx : w.workers[i]? = some ⟨p, pc⟩)
    (hu : u.workers = w.workers.set i ⟨p, pc'⟩) (hp : u.pools q = w.pools q) : u.Wakeful q := by
  have hd : decide (p = q) = false := decide_eq_false (Ne.symm hne)
  refine wakeful_set hw hx hu (by rw [hp]) (by rw [hp]) ?_ ?_ ?_
  · simp only [Worker.idleIn, hd, Bool.false_and]
  · simp only [Worker.waitsIn, hd, Bool.false_and]
  · simp only [Worker.awakeIn, hd, Bool.false_and]
    exact id

theorem look_other (hne : q ≠ p) (hx : w.workers[i]? = some ⟨p, pc⟩) (hw : w.Wakeful q) :
    (w.look i p).Wakeful q := by
  unfold look
  split <;> exact wakeful_other hw hne hx rfl (Function.update_of_ne hne _ _)

/-- Every pool is wakeful, and no thread about to die has a schedule call to make. -/
structure PoolsWakeful (w : SedaWorld ε) : Prop where
  pools : ∀ p, w.Wakeful p
  callers : ∀ x ∈ w.workers, ∀ r e s, x.pc = .handling r e (some s) → r.isKiller = false

theorem callers_set (hw : w.PoolsWakeful) (hu : u.workers = w.workers.set i ⟨p, pc'⟩)
    (hpc : ∀ r e s, pc' = .handling r e (some s) → r.isKiller = false) :
    ∀ x ∈ u.workers, ∀ r e s, x.pc = .handling r e (some s) → r.isKiller = false := by
  intro x hx
  rw [hu] at hx
  rcases List.mem_or_eq_of_mem_set hx with hx | rfl
  · exact hw.callers x hx
  · exact hpc

/-- A step that is none of the pools' business. -/
theorem PoolsWakeful.congr (hw : w.PoolsWakeful) (hworkers : u.workers = w.workers)
    (hq : ∀ q, (u.pools q).runQueue = (w.pools q).runQueue)
    (hn : ∀ q, (u.pools q).nIdles = (w.pools q).nIdles) : u.PoolsWakeful where
  pools := fun q => (hw.pools q).congr (hq q) (hn q) (by unfold idle; rw [hworkers])
    (by unfold blocked; rw [hworkers]) (Nat.le_of_eq (by unfold awake; rw [hworkers]))
  callers := by rw [hworkers]; exact hw.callers

/-- A thread goes on to something that is the same to the pools, which stay as they are. -/
theorem PoolsWakeful.set (hw : w.PoolsWakeful) (hx : w.workers[i]? = some ⟨p, pc⟩)
    (hu : u.workers = w.workers.set i ⟨p, pc'⟩)
    (hq : ∀ q, (u.pools q).runQueue = (w.pools q).runQueue)
    (hn : ∀ q, (u.pools q).nIdles = (w.pools q).nIdles)
    (hi : ∀ q, Worker.idleIn q ⟨p, pc'⟩ = Worker.idleIn q ⟨p, pc⟩)
    (hb : ∀ q, Worker.waitsIn q ⟨p, pc'⟩ = Worker.waitsIn q ⟨p, pc⟩)
    (ha : ∀ q, Worker.awakeIn q ⟨p, pc⟩ = true → Worker.awakeIn q ⟨p, pc'⟩ = true)
    (hpc : ∀ r e s, pc' = .handling r e (some s) → r.isKiller = false) : u.PoolsWakeful where
  pools := fun q => wakeful_set (hw.pools q) hx hu (hq q) (hn q) (hi q) (hb q) (ha q)
  callers := callers_set hw hu hpc

theorem PoolsWakeful.schedule {caller : Option ℕ} {woken : ℕ} (hv : v.PoolsWakeful)
    (hcaller : ∀ p, caller = some p → 0 < v.awake p) (h : v.schedule s caller woken = some u) :
    u.PoolsWakeful where
  pools := wakeful_schedule hv.pools hcaller h
  callers := by
    rcases schedule_cases h with ⟨⟨a, rfl, -⟩, -⟩ | ⟨p, ws, -, rfl, hws | ⟨rfl, -⟩⟩
    · exact hv.callers
    · rcases wakeOne_eq_some.1 hws with ⟨-, rfl⟩ | ⟨x, -, -, rfl⟩
      · exact hv.callers
      · intro y hy r e s' hpc
        rcases List.mem_or_eq_of_mem_set hy with hy | rfl
        · exact hv.callers y hy r e s' hpc
        · cases hpc
    · exact hv.callers

/-- New threads of a pool look at its run queue first. -/
theorem PoolsWakeful.addWorkers (hw : w.PoolsWakeful) (n : ℕ) :
    { w with
      workers := w.workers ++ List.replicate n ⟨p, .looking⟩ : SedaWorld ε }.PoolsWakeful where
  pools := fun q => by
    refine (hw.pools q).congr rfl rfl ?_ ?_ ?_
    · show (w.workers ++ _).countP _ = _
      rw [List.countP_append, List.countP_replicate]
      simp [Worker.idleIn, idle]
    · show (w.workers ++ _).countP _ = _
      rw [List.countP_append, List.countP_replicate]
      simp [Worker.waitsIn, blocked]
    · show _ ≤ (w.workers ++ _).countP _
      rw [List.countP_append]
      exact Nat.le_add_right _ _
  callers := by
    intro x hx r e s hpc
    rcases List.mem_append.1 hx with hx | hx
    · exact hw.callers x hx r e s hpc
    · rw [List.eq_of_mem_replicate hx] at hpc
      cases hpc

theorem PoolsWakeful.call {woken : ℕ} (h : v.schedule s none woken = some u)
    (hv : v.PoolsWakeful) : u.PoolsWakeful :=
  hv.schedule (fun p hp => by cases hp) h

/-- A pool goes on with what is not the run queue. -/
theorem PoolsWakeful.setPool {pool : Pool} (hw : w.PoolsWakeful)
    (hq : pool.runQueue = (w.pools p).runQueue) (hn : pool.nIdles = (w.pools p).nIdles) :
    (w.setPool p pool).PoolsWakeful :=
  hw.congr rfl (setPool_keeps Pool.runQueue hq) (setPool_keeps Pool.nIdles hn)

theorem wakeful_start : ({} : SedaWorld ε).PoolsWakeful where
  pools := fun _ => ⟨rfl, fun h => absurd h (Nat.lt_irrefl 0)⟩
  callers := fun x hx => by cases hx

theorem PoolsWakeful.look (hw : w.PoolsWakeful) {n : ℕ} (hx : w.workers[i]? = some ⟨p, pc⟩)
    (hn : n + (Worker.idleIn p (⟨p, pc⟩ : Worker ε)).toNat = w.idle p) :
    ((w.setPool p { w.pools p with nIdles := n }).look i p).PoolsWakeful where
  pools := fun q => by
    by_cases hq : q = p
    · subst hq
      have hpool : (w.setPool q { w.pools q with nIdles := n }).pools q
          = { w.pools q with nIdles := n } := Function.update_self _ _ _
      refine wakeful_look hx (by rw [hpool]; exact hn) ?_
      unfold Attended
      rw [hpool]
      exact (hw.pools q).attended
    · exact look_other hq hx ((hw.pools q).congr (by rw [setPool_pools, if_neg hq])
        (by rw [setPool_pools, if_neg hq])
        rfl rfl (Nat.le_refl _))
  callers := by
    unfold SedaWorld.look
    split <;> exact callers_set (i := i) hw rfl fun _ _ _ h => by cases h

/-- Every step leaves the pools wakeful. -/
theorem PoolsWakeful.step {l : SedaStep ε} (hw : w.PoolsWakeful) (hs : w.step l = some u) :
    u.PoolsWakeful := by
  have ht := (takes_of_step hs).2
  cases l with
  | addThreads p n =>
    obtain ⟨-, rfl⟩ := ht
    have hk : (w.setPool p { w.pools p with
        nthreads := (w.pools p).nthreads + n, added := (w.pools p).added + n }).PoolsWakeful :=
      hw.setPool rfl rfl
    exact hk.addWorkers n
  | addEvent n event =>
    subst ht
    exact hw.congr rfl (fun _ => rfl) fun _ => rfl
  | schedule s woken =>
    obtain ⟨-, h⟩ := ht
    exact .call h (hw.congr rfl (fun _ => rfl) fun _ => rfl)
  | look i =>
    obtain ⟨p, hx, rfl⟩ := ht
    have hself : w.setPool p { w.pools p with nIdles := (w.pools p).nIdles } = w := by
      unfold SedaWorld.setPool
      rw [Function.update_eq_self]
    have h0 : Worker.idleIn p (⟨p, .looking⟩ : Worker ε) = false := by simp [Worker.idleIn]
    have := hw.look hx (n := (w.pools p).nIdles) (by rw [h0]; exact (hw.pools p).nIdles)
    rwa [hself] at this
  | wake i =>
    obtain ⟨p, pc, hx, hpc, rfl⟩ := ht
    have h1 : Worker.idleIn p (⟨p, pc⟩ : Worker ε) = true := by
      rcases hpc with rfl | rfl <;> simp [Worker.idleIn]
    have hpos : 0 < w.idle p := countP_pos_of_getElem? hx h1
    have hn := (hw.pools p).nIdles
    refine hw.look hx ?_
    rw [h1, hn]
    exact Nat.sub_add_cancel hpos
  | removeEvent i =>
    obtain ⟨p, s, hx, ⟨-, rfl⟩ | ⟨event, st, -, rfl⟩⟩ := ht
    · exact hw.congr rfl (fun _ => rfl) fun _ => rfl
    · exact hw.set hx rfl (fun _ => rfl) (fun _ => rfl) (fun _ => rfl) (fun _ => rfl)
        (fun _ h => h) fun _ _ _ h => by cases h
  | handlerAddEvent i n event =>
    obtain ⟨p, m, e, hx, rfl⟩ := ht
    refine hw.set hx rfl (fun _ => rfl) (fun _ => rfl) (fun _ => rfl) (fun _ => rfl)
      (fun _ h => h) fun r _ _ h => ?_
    simp only [WorkerPc.handling.injEq] at h
    rw [← h.1]
    rfl
  | handlerSchedule i woken =>
    obtain ⟨p, r, e, s, hx, h⟩ := ht
    have hr := hw.callers _ (List.mem_of_getElem? hx) r e s rfl
    have hv : (w.setWorker i p (.handling r e none)).PoolsWakeful :=
      hw.set hx rfl (fun _ => rfl) (fun _ => rfl) (fun _ => rfl) (fun _ => rfl) (fun _ h => h)
        fun _ _ _ h => by cases h
    have hself : (w.setWorker i p (.handling r e none)).workers[i]?
        = some ⟨p, .handling r e none⟩ := by
      obtain ⟨hi, -⟩ := List.getElem?_eq_some_iff.1 hx
      exact List.getElem?_set_self hi
    refine hv.schedule (fun q hq => ?_) h
    cases hq
    exact countP_pos_of_getElem? hself (by simp [Worker.awakeIn, hr])
  | threadKill i =>
    obtain ⟨p, q, e, hx, ⟨-, rfl⟩ | ⟨r, -, -, rfl⟩⟩ := ht
    · exact hw.congr rfl (fun _ => rfl) fun _ => rfl
    · have hk : (w.threadKill r).PoolsWakeful := hw.setPool rfl rfl
      exact hk.set hx rfl (fun _ => rfl) (fun _ => rfl) (fun _ => rfl) (fun _ => rfl)
        (fun _ h => h) fun _ _ _ h => by cases h
  | releaseEvent i =>
    obtain ⟨p, s, pc, pc', hx, ⟨n, e, rfl, rfl, rfl⟩ | ⟨e, rfl, rfl⟩, rfl⟩ := ht
    · exact hw.set hx rfl (fun _ => rfl) (fun _ => rfl) (fun _ => rfl) (fun _ => rfl)
        (fun _ h => h) fun _ _ _ h => by cases h
    · exact hw.set hx rfl (fun _ => rfl) (fun _ => rfl) (fun _ => rfl) (fun _ => rfl)
        (fun _ h => h) fun _ _ _ h => by cases h
  | setPool n p =>
    obtain ⟨-, rfl⟩ | ⟨-, rfl⟩ := ht <;> exact hw.congr rfl (fun _ => rfl) fun _ => rfl
  | connect n success =>
    subst ht
    unfold connect
    split_ifs
    · exact hw.congr rfl (fun _ => rfl) fun _ => rfl
    · exact hw.congr rfl (fun _ => rfl) fun _ => rfl
    · exact hw
  | connectLock n =>
    obtain ⟨-, rfl⟩ := ht
    exact hw.congr rfl (fun _ => rfl) fun _ => rfl
  | connectRead n backlog =>
    obtain ⟨-, rfl⟩ := ht
    exact hw.congr rfl (fun _ => rfl) fun _ => rfl
  | disconnect n =>
    subst ht
    unfold disconnect
    split_ifs <;> exact hw.congr rfl (fun _ => rfl) fun _ => rfl
  | disconnectLock n =>
    obtain ⟨-, rfl⟩ := ht
    exact hw.congr rfl (fun _ => rfl) fun _ => rfl
  | disconnectReturn n =>
    obtain ⟨-, -, rfl⟩ := ht
    exact hw.congr rfl (fun _ => rfl) fun _ => rfl
  | killThreads p threads =>
    obtain ⟨-, rfl⟩ := ht
    unfold killThreads
    dsimp only
    split_ifs
    · exact hw
    · exact hw.congr rfl (fun _ => rfl) fun _ => rfl
    · have hk : (w.setPool p (startKill (w.pools p) threads
          (w.stages (.killer p)).backlog)).PoolsWakeful := hw.setPool rfl rfl
      exact hk.congr rfl (fun _ => rfl) fun _ => rfl
  | killRead p =>
    obtain ⟨n, total, -, rfl⟩ := ht
    exact hw.setPool rfl rfl
  | killConnected p =>
    obtain ⟨total, -, rfl⟩ := ht
    exact hw.setPool rfl rfl
  | killAddEvent p event =>
    obtain ⟨left, total, -, rfl⟩ := ht
    have hv : (w.addEvent (.killer p) event).PoolsWakeful :=
      hw.congr rfl (fun _ => rfl) fun _ => rfl
    exact hv.setPool rfl rfl
  | killSchedule p woken =>
    obtain ⟨k, -, h⟩ := ht
    exact .call h (hw.setPool rfl rfl)
  | killWait p =>
    obtain ⟨total, -, rfl⟩ := ht
    exact hw.setPool rfl rfl
  | killWake p =>
    obtain ⟨total, -, rfl⟩ := ht
    have hk : (w.setKill p (.disconnecting total)).PoolsWakeful := hw.setPool rfl rfl
    unfold killDisconnect
    dsimp only
    split_ifs
    · exact hk.congr rfl (fun _ => rfl) fun _ => rfl
    · exact hw.congr rfl (fun _ => rfl) fun _ => rfl
  | killReturn p =>
    obtain ⟨total, -, -, rfl⟩ := ht
    have hv : (w.disconnected (.killer p)).PoolsWakeful := hw.congr rfl (fun _ => rfl) fun _ => rfl
    exact hv.setPool rfl rfl

/-- In every state of a run in which a thread of the pool sleeps unsignalled, the threads that are
awake and not about to die are enough for the run queue. -/
theorem run_attended {ls : List (SedaStep ε)} (hr : (seda ε).run {} ls = some w) (p : ℕ) :
    w.Attended p :=
  (((seda ε).run_inv_of_step (fun _ _ _ hw hs => PoolsWakeful.step hw hs) ls wakeful_start
    hr).pools p).attended

/-- Two threads sleep, and an event from outside the pool wakes one of them. -/
theorem run_attended_one_event : ∃ w, (seda ℕ).run {}
      [.addThreads 0 2, .look 0, .look 1, .setPool 0 0, .connect 0 true, .connectLock 0,
        .connectRead 0 0, .addEvent 0 7, .schedule (.stage 0) 1] = some w
    ∧ w.blocked 0 = 1 ∧ (w.pools 0).runQueue.length = 1 ∧ w.Attended 0 :=
  ⟨_, rfl, rfl, rfl, @run_attended ℕ _ [.addThreads 0 2, .look 0, .look 1, .setPool 0 0,
    .connect 0 true, .connectLock 0, .connectRead 0 0, .addEvent 0 7,
    .schedule (.stage 0) 1] rfl 0⟩

end SedaWorld

end Longda
