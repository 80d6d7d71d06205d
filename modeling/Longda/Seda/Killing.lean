import Longda.Seda.StageLife

/-!
# The events of a killer

`killThreads` adds an event to the killer of the pool for each thread to be killed, sets the counter
of the exits to come, and waits. Each such event is on its way to a thread, which counts its exit
down (`Killing`), and no one but `killThreads` has anything to do with the killer.
-/

namespace Longda

open Lib

variable {ε : Type*}

/-- The thread has taken a kill event of the pool and has not been through `threadKill`. -/
def Worker.toDie (p : ℕ) (x : Worker ε) : Bool :=
  match x.pc with
  | .popped (.killer q) | .handling (.killer q) _ _ => decide (q = p)
  | _ => false

/-- `killThreads` is blocked, and nothing has signalled `threadCond`. -/
def KillPc.waits : KillPc → Bool
  | .waiting _ => true
  | _ => false

namespace SedaWorld

/-- The exits requested of the pool that are still to come. -/
def outstanding (w : SedaWorld ε) (p : ℕ) : ℕ :=
  (w.pools p).runQueue.count (.killer p) + (w.pools p).kill.calls
    + w.workers.countP (Worker.toDie p)

/-- What `killThreads` counts while it is where it is. -/
def KillCounts (pool : Pool) (outstanding : ℕ) : Prop :=
  match pool.kill with
  | .none => pool.threadsToKill = 0 ∧ outstanding = 0
  | .unlocked n total | .connecting n total => n = 0 ∧ pool.threadsToKill = 0 ∧ 0 < total
      ∧ outstanding = 0 ∧ total = min pool.asked pool.before
      ∧ pool.nthreads = pool.before + pool.added
  | .generating left total | .scheduling left total =>
    pool.threadsToKill = 0 ∧ 0 < total ∧ outstanding + left = total
      ∧ total = min pool.asked pool.before ∧ pool.nthreads = pool.before + pool.added
  | .waiting total => pool.threadsToKill = outstanding ∧ 0 < outstanding
      ∧ total = min pool.asked pool.before
      ∧ pool.nthreads + total = pool.before + pool.added + outstanding
  | .signalled total | .disconnecting total => pool.threadsToKill = 0 ∧ outstanding = 0
      ∧ total = min pool.asked pool.before ∧ pool.nthreads + total = pool.before + pool.added

/-- The killer of the pool has the events of `killThreads` and no others. -/
structure Killing (w : SedaWorld ε) (p : ℕ) : Prop where
  pool : ∀ q, (w.stages (.killer p)).thPool = some q → q = p
  list : (w.stages (.killer p)).eventList.length
    = (w.pools p).runQueue.count (.killer p) + (w.pools p).kill.calls + w.popped (.killer p)
  calls : w.calls.count (.killer p) = 0
  handlers : w.workers.countP (Worker.calls (.killer p)) = 0
  counts : KillCounts (w.pools p) (w.outstanding p)

variable {w u v : SedaWorld ε} {s : StageId} {i n p q : ℕ} {pc pc' : WorkerPc ε} {event : ε}

/-- Where a thread is for the killing of the pool. -/
def roles (p : ℕ) : List (Worker ε → Bool) :=
  [Worker.calls (.killer p), Worker.popped (.killer p), Worker.toDie p]

theorem forall_roles {P : (Worker ε → Bool) → Prop} : (∀ f ∈ roles p, P f) ↔
    P (Worker.calls (.killer p)) ∧ P (Worker.popped (.killer p)) ∧ P (Worker.toDie p) := by
  simp [roles]

/-- A step that leaves the killer, its tokens and the threads on their way to death. -/
theorem Killing.congr (hw : w.Killing p)
    (hpool : (u.stages (.killer p)).thPool = (w.stages (.killer p)).thPool)
    (hlist : (u.stages (.killer p)).eventList = (w.stages (.killer p)).eventList)
    (hq : (u.pools p).runQueue.count (.killer p) = (w.pools p).runQueue.count (.killer p))
    (hk : (u.pools p).kill.calls = (w.pools p).kill.calls)
    (hcounts : KillCounts (w.pools p) (w.outstanding p) →
      KillCounts (u.pools p) (w.outstanding p))
    (hcalls : u.calls.count (.killer p) = w.calls.count (.killer p))
    (hworkers : SameCounts w u (roles p)) : u.Killing p := by
  obtain ⟨hhandlers, hpopped, htoDie⟩ := forall_roles.1 hworkers
  have hout : u.outstanding p = w.outstanding p := by
    unfold outstanding
    rw [hq, hk, htoDie]
  constructor
  · rw [hpool]
    exact hw.pool
  · rw [hlist, hq, hk, hw.list]
    exact congrArg _ hpopped.symm
  · rw [hcalls]
    exact hw.calls
  · rw [hhandlers]
    exact hw.handlers
  · rw [hout]
    exact hcounts hw.counts

/-- A step of the threads and the schedule calls alone. -/
theorem Killing.work (hw : w.Killing p) (hst : u.stages (.killer p) = w.stages (.killer p))
    (hpool : u.pools p = w.pools p)
    (hcalls : u.calls.count (.killer p) = w.calls.count (.killer p))
    (hworkers : SameCounts w u (roles p)) : u.Killing p :=
  hw.congr (by rw [hst]) (by rw [hst]) (by rw [hpool]) (by rw [hpool])
    (by rw [hpool]; exact id) hcalls hworkers

/-- A step of another stage. -/
theorem Killing.of_onlyStage (hw : w.Killing p) (h : OnlyStage w u s) (hs : .killer p ≠ s)
    (hpool : u.pools p = w.pools p) : u.Killing p :=
  hw.work (h.stages _ hs) hpool (h.calls _ hs) (.refl h.workers _)

theorem Killing.abort (hw : w.Killing p) (a : SedaAssert) : (w.abort a).Killing p :=
  hw.work rfl rfl rfl (.refl rfl _)

/-- The number of idle threads is nothing to the killing. -/
theorem Killing.setIdles (hw : w.Killing q) (p n : ℕ) :
    (w.setPool p { w.pools p with nIdles := n }).Killing q :=
  hw.congr rfl rfl (setPool_keeps (·.runQueue.count (.killer q)) (by rfl) q)
    (setPool_keeps (·.kill.calls) (by rfl) q) (setPool_keeps (KillCounts · _) (by rfl) q).mpr rfl
    (.refl rfl _)

/-- `schedule` of a stage that is no killer. -/
theorem Killing.schedule {caller : Option ℕ} {woken : ℕ}
    (h : v.schedule (.stage n) caller woken = some u) (hv : v.Killing p) : u.Killing p := by
  rcases schedule_cases h with ⟨⟨a, rfl, -⟩, -⟩ | ⟨q, ws, -, rfl, hws⟩
  · exact hv.abort a
  · have hq : ((v.pushBack q (.stage n)).pools p).runQueue.count (.killer p)
        = (v.pools p).runQueue.count (.killer p) := by
      rw [pushBack_runQueue]
      split_ifs with hpq
      · rw [hpq, List.count_append, List.count_singleton]
        rfl
      · rfl
    refine hv.congr rfl rfl hq (congrArg KillPc.calls (pushBack_kill v q _ p))
      (setPool_keeps (KillCounts · _) (by rfl) p).mpr rfl ?_
    · rcases hws with hws | ⟨rfl, -⟩
      · exact sameCounts_wakeOne rfl hws
          (forall_roles.2 ⟨fun _ => rfl, fun _ => rfl, fun _ => rfl⟩)
      · exact .refl rfl _

theorem roles_of_free (hpc : Free pc) (p q : ℕ) : ∀ f ∈ roles q, f ⟨p, pc⟩ = false := by
  rw [forall_roles]
  rcases hpc with rfl | rfl | rfl <;> exact ⟨rfl, rfl, rfl⟩

/-- A thread of the pool takes its killer off the run queue. -/
theorem Killing.take {rest : List StageId} (hw : w.Killing p)
    (hx : w.workers[i]? = some ⟨p, pc⟩) (hpc : Free pc)
    (hr : (w.pools p).runQueue = .killer p :: rest) :
    ((w.setPool p { w.pools p with runQueue := rest }).setWorker i p
      (.popped (.killer p))).Killing p := by
  obtain ⟨hcalls, hpopped, htoDie⟩ := forall_roles.1 (roles_of_free hpc p p)
  have hwork := fun f => countP_set hx f ⟨p, .popped (.killer p)⟩
  have hc := hwork (Worker.calls (.killer p))
  have hp := hwork (Worker.popped (.killer p))
  have hd := hwork (Worker.toDie p)
  have hp1 : Worker.popped (.killer p) (⟨p, .popped (.killer p)⟩ : Worker ε) = true :=
    decide_eq_true rfl
  have hd1 : Worker.toDie p (⟨p, .popped (.killer p)⟩ : Worker ε) = true := decide_eq_true rfl
  rw [hcalls] at hc
  rw [hpopped, hp1] at hp
  rw [htoDie, hd1] at hd
  have hcount : (w.pools p).runQueue.count (.killer p) = rest.count (.killer p) + 1 := by
    rw [hr, List.count_cons_self]
  have hpool : ((w.setPool p { w.pools p with runQueue := rest }).setWorker i p
      (.popped (.killer p))).pools p = { w.pools p with runQueue := rest } :=
    Function.update_self _ _ _
  have hout : outstanding ((w.setPool p { w.pools p with runQueue := rest }).setWorker i p
      (.popped (.killer p))) p = w.outstanding p := by
    unfold outstanding
    rw [hpool, hcount]
    show rest.count _ + (w.pools p).kill.calls + (w.workers.set i _).countP _ = _
    simp only [Bool.toNat_false, Bool.toNat_true] at hd
    omega
  constructor
  · exact hw.pool
  · have hl := hw.list
    rw [hpool]
    show (w.stages (.killer p)).eventList.length = rest.count _ + (w.pools p).kill.calls
      + (w.workers.set i _).countP _
    unfold SedaWorld.popped at hl
    simp only [Bool.toNat_false, Bool.toNat_true] at hp
    omega
  · exact hw.calls
  · exact hc.trans hw.handlers
  · rw [hpool, hout]
    exact hw.counts

/-- A thread takes another stage off the run queue. -/
theorem Killing.takeOther {rest : List StageId} (hw : w.Killing q)
    (hx : w.workers[i]? = some ⟨p, pc⟩) (hpc : Free pc) (hr : (w.pools p).runQueue = s :: rest)
    (hs : s ≠ .killer q) :
    ((w.setPool p { w.pools p with runQueue := rest }).setWorker i p (.popped s)).Killing q := by
  obtain ⟨hcalls, hpopped, htoDie⟩ := forall_roles.1 (roles_of_free hpc p q)
  have hcount : rest.count (.killer q) = (w.pools p).runQueue.count (.killer q) := by
    rw [hr, List.count_cons_of_ne hs]
  refine hw.congr rfl rfl (setPool_keeps (·.runQueue.count (.killer q)) hcount q)
    (setPool_keeps (·.kill.calls) (by rfl) q) (setPool_keeps (KillCounts · _) (by rfl) q).mpr rfl
    (sameCounts_set hx rfl (forall_roles.2 ⟨?_, ?_, ?_⟩))
  · exact hcalls.symm
  · rw [hpopped]
    exact decide_eq_false hs
  · rw [htoDie]
    cases s with
    | stage n => rfl
    | killer m => exact decide_eq_false fun h => hs (congrArg _ h)

/-- A thread looks at the run queue, from where it goes to its death if it takes the killer. -/
theorem killing_look (hw : ∀ q, w.Killing q) (hacc : ∀ p, w.Accounted (.killer p))
    (hx : w.workers[i]? = some ⟨p, pc⟩) (hpc : Free pc) (q : ℕ) : (w.look i p).Killing q := by
  obtain ⟨hcalls, hpopped, htoDie⟩ := forall_roles.1 (roles_of_free hpc p q)
  unfold look
  split
  · refine ((hw q).setIdles p _).work rfl rfl rfl
      (sameCounts_set hx rfl (forall_roles.2 ⟨?_, ?_, ?_⟩))
    · exact hcalls.symm
    · exact hpopped.symm
    · exact htoDie.symm
  · rename_i r rest hr
    by_cases hrq : r = .killer q
    · -- no other pool has the killer in its run queue
      have hp : (w.stages (.killer q)).thPool = some p := by
        by_contra hne
        have := (hacc q).balanced.elsewhere p hne
        rw [hr, hrq, List.count_cons_self] at this
        omega
      have hpq := (hw q).pool p hp
      subst hrq hpq
      exact (hw p).take hx hpc hr
    · exact (hw q).takeOther hx hpc hr hrq

/-- A thread removes its event from the stage, and is on its way to death if that is the killer. -/
theorem killing_removeEvent {st : SedaStage ε} (hw : w.Killing q)
    (hx : w.workers[i]? = some ⟨p, .popped s⟩)
    (hr : (w.stages s).removeEvent = some (event, st)) :
    ((w.setStage s st).setWorker i p (.handling s event none)).Killing q := by
  unfold SedaStage.removeEvent at hr
  split at hr
  · cases hr
  · rename_i se rest hl
    simp only [Option.some.injEq, Prod.mk.injEq] at hr
    obtain ⟨rfl, rfl⟩ := hr
    have hwork := fun f => countP_set hx f ⟨p, .handling s se none⟩
    by_cases hs : s = .killer q
    · subst hs
      have hp := hwork (Worker.popped (.killer q))
      have hp1 : Worker.popped (.killer q) (⟨p, .popped (.killer q)⟩ : Worker ε) = true :=
        decide_eq_true rfl
      have hp0 :
          Worker.popped (.killer q) (⟨p, .handling (.killer q) se none⟩ : Worker ε) = false := rfl
      rw [hp1, hp0] at hp
      have hd : _ = w.workers.countP (Worker.toDie q) :=
        Nat.add_right_cancel (hwork (Worker.toDie q))
      have hst := setStage_stages w (.killer q) { w.stages (.killer q) with
        eventList := rest, removed := (w.stages (.killer q)).removed ++ [se] } (.killer q)
      rw [if_pos rfl] at hst
      constructor
      · show ∀ r, ((w.setStage _ _).stages _).thPool = some r → _
        rw [hst]
        exact hw.pool
      · have hlist := hw.list
        show ((w.setStage _ _).stages _).eventList.length = _ + _ + (w.workers.set i _).countP _
        rw [hst]
        rw [hl, List.length_cons] at hlist
        unfold SedaWorld.popped at hlist
        simp only [Bool.toNat_false, Bool.toNat_true] at hp
        show rest.length = (w.pools q).runQueue.count _ + (w.pools q).kill.calls + _
        omega
      · exact hw.calls
      · exact Nat.add_right_cancel (hwork (Worker.calls (.killer q))) |>.trans hw.handlers
      · have hout : outstanding ((w.setStage (.killer q) { w.stages (.killer q) with
            eventList := rest, removed := (w.stages (.killer q)).removed ++ [se] }).setWorker i p
            (.handling (.killer q) se none)) q = w.outstanding q := congrArg (_ + ·) hd
        rw [hout]
        exact hw.counts
    · refine hw.work ((setStage_stages w s _ _).trans (if_neg (Ne.symm hs))) rfl rfl
        (sameCounts_set hx rfl (forall_roles.2 ⟨rfl, (decide_eq_false hs).symm, ?_⟩))
      cases s <;> rfl

/-- One of the exits that are still to come is there, and the last one of them signals. -/
theorem killCounts_exit {pool : Pool} {m : ℕ} (h : KillCounts pool (m + 1))
    (hlock : pool.kill.locks = false) :
    KillCounts { pool with
      nthreads := pool.nthreads - 1
      threadsToKill := pool.threadsToKill - 1
      kill := if pool.threadsToKill - 1 = 0 then pool.kill.signal else pool.kill } m := by
  unfold KillCounts at h
  rcases hk : pool.kill with _ | ⟨m, total⟩ | ⟨m, total⟩ | ⟨left, total⟩ | ⟨left, total⟩ | total
    | total | total <;> rw [hk] at h hlock
  · cases h.2
  · cases hlock
  · cases hlock
  · cases hlock
  · cases hlock
  · obtain ⟨htk, -, htotal, hn⟩ := h
    have := Nat.min_le_right pool.asked pool.before
    have hm : pool.threadsToKill - 1 = m := by omega
    have hn' : pool.nthreads - 1 + total = pool.before + pool.added + m := by omega
    by_cases h0 : pool.threadsToKill - 1 = 0
    · rw [if_pos h0]
      obtain rfl : m = 0 := hm.symm.trans h0
      exact ⟨h0, rfl, htotal, hn'⟩
    · rw [if_neg h0]
      exact ⟨hm, Nat.pos_of_ne_zero (hm ▸ h0), htotal, hn'⟩
  · cases h.2.1
  · cases hlock

/-- A thread dies, and the last one that was asked to signals. -/
theorem killing_threadKill {e : ε} (hw : w.Killing q)
    (hx : w.workers[i]? = some ⟨p, .handling (.killer n) e none⟩)
    (hlock : (w.pools n).kill.locks = false) :
    ((w.threadKill n).setWorker i p (.dying (.killer n) e)).Killing q := by
  have hwork := fun f => countP_set hx f ⟨p, .dying (.killer n) e⟩
  by_cases hq : q = n
  · subst hq
    have hd := hwork (Worker.toDie q)
    have hd1 : Worker.toDie q (⟨p, .handling (.killer q) e none⟩ : Worker ε) = true :=
      decide_eq_true rfl
    have hd0 : Worker.toDie q (⟨p, .dying (.killer q) e⟩ : Worker ε) = false := rfl
    rw [hd1, hd0] at hd
    simp only [Bool.toNat_false, Bool.toNat_true, Nat.add_zero] at hd
    have hpool : ((w.threadKill q).setWorker i p (.dying (.killer q) e)).pools q
        = { w.pools q with
            nthreads := (w.pools q).nthreads - 1
            threadsToKill := (w.pools q).threadsToKill - 1
            kill := if (w.pools q).threadsToKill - 1 = 0 then (w.pools q).kill.signal
              else (w.pools q).kill } := Function.update_self _ _ _
    have hcalls : (if (w.pools q).threadsToKill - 1 = 0 then (w.pools q).kill.signal
        else (w.pools q).kill).calls = (w.pools q).kill.calls := by
      split_ifs
      · cases (w.pools q).kill <;> rfl
      · rfl
    have hout : outstanding ((w.threadKill q).setWorker i p (.dying (.killer q) e)) q + 1
        = w.outstanding q := by
      unfold outstanding
      rw [hpool]
      show (w.pools q).runQueue.count _ + KillPc.calls _ + (w.workers.set i _).countP _ + 1 = _
      rw [hcalls]
      omega
    constructor
    · exact hw.pool
    · rw [hpool]
      show _ = (w.pools q).runQueue.count _ + KillPc.calls _ + (w.workers.set i _).countP _
      rw [hcalls]
      exact hw.list.trans
        (congrArg _ (Nat.add_right_cancel (hwork (Worker.popped (.killer q)))).symm)
    · exact hw.calls
    · exact Nat.add_right_cancel (hwork (Worker.calls (.killer q))) |>.trans hw.handlers
    · rw [hpool]
      exact killCounts_exit (hout ▸ hw.counts) hlock
  · have hpool : (w.threadKill n).pools q = w.pools q := Function.update_of_ne hq _ _
    refine hw.work rfl hpool rfl (sameCounts_set hx rfl (forall_roles.2 ⟨rfl, rfl, ?_⟩))
    exact (decide_eq_false (Ne.symm hq)).symm

/-- `killThreads` starts with a killer that has nothing under way. -/
theorem Killing.start {threads : ℕ} (hw : w.Killing p) (hs : w.Accounted (.killer p))
    (hk : (w.pools p).kill = .none) (hpos : 0 < min threads (w.pools p).nthreads) :
    ((w.setPool p (startKill (w.pools p) threads (w.stages (.killer p)).backlog)).setStage
      (.killer p) { w.stages (.killer p) with thPool := some p }.connect).Killing p := by
  have hc := hs.lived.kill p rfl
  rw [hk] at hc
  have hopen : ¬w.Closing (.killer p) := not_closing_killer (by rw [hk]; rfl)
  obtain ⟨htok, -, hpopped, -⟩ := hs.balanced.idle (hs.lived.quiet hc hopen)
  have hcounts := hw.counts
  unfold KillCounts at hcounts
  rw [hk] at hcounts
  obtain ⟨htk, hout⟩ := hcounts
  have hlist := hw.list
  rw [hk, htok, hpopped] at hlist
  have hback : (w.stages (.killer p)).backlog = 0 := by
    unfold SedaStage.backlog
    rw [hlist]
    rfl
  have hpool : ((w.setPool p (startKill (w.pools p) threads
      (w.stages (.killer p)).backlog)).setStage (.killer p)
        { w.stages (.killer p) with thPool := some p }.connect).pools p
      = startKill (w.pools p) threads 0 := by
    rw [hback]
    exact Function.update_self _ _ _
  have hst : ((w.setPool p (startKill (w.pools p) threads
      (w.stages (.killer p)).backlog)).setStage (.killer p)
        { w.stages (.killer p) with thPool := some p }.connect).stages (.killer p)
      = { w.stages (.killer p) with thPool := some p : SedaStage ε }.connect :=
    Function.update_self _ _ _
  constructor
  · rw [hst]
    intro r hr
    exact (Option.some.inj hr).symm
  · rw [hst, hpool]
    show (w.stages (.killer p)).eventList.length = (w.pools p).runQueue.count _ + 0
      + w.popped (.killer p)
    rw [htok, hpopped]
    exact hlist
  · exact hw.calls
  · exact hw.handlers
  · rw [hpool]
    have hout' : outstanding ((w.setPool p (startKill (w.pools p) threads
        (w.stages (.killer p)).backlog)).setStage (.killer p)
          { w.stages (.killer p) with thPool := some p }.connect) p = 0 := by
      unfold outstanding at hout ⊢
      rw [hk] at hout
      rw [hpool]
      exact hout
    rw [hout']
    exact ⟨rfl, htk, hpos, rfl, rfl, rfl⟩

theorem killing_killThreads {threads : ℕ} (hw : w.Killing q) (hacc : ∀ p, w.Accounted (.killer p))
    (hk : (w.pools n).kill = .none) (hpos : 0 < min threads (w.pools n).nthreads) :
    (w.killThreads n threads).Killing q := by
  unfold killThreads
  dsimp only
  split_ifs with ht hconn
  · exact hw
  · exact hw.abort _
  · by_cases hq : q = n
    · subst hq
      exact hw.start (hacc q) hk hpos
    · have hpool : OnlyStage w (w.setPool n (startKill (w.pools n) threads
          (w.stages (.killer n)).backlog)) (.killer n) := onlyStage_setPool rfl
      refine hw.of_onlyStage (hpool.trans (onlyStage_setStage _ _ _)) ?_
        (Function.update_of_ne hq _ _)
      intro h
      cases h
      exact hq rfl

/-- `killThreads` goes on in a place with as many calls to make. -/
theorem killing_setKill {k : KillPc} (hw : w.Killing q) (hcalls : k.calls = (w.pools n).kill.calls)
    (hcounts : ∀ m, KillCounts (w.pools n) m → KillCounts { w.pools n with kill := k } m) :
    (w.setKill n k).Killing q := by
  by_cases hq : q = n
  · subst hq
    have hpool : (w.setKill q k).pools q = { w.pools q with kill := k } :=
      Function.update_self _ _ _
    exact hw.congr rfl rfl (by rw [hpool]) (by rw [hpool]; exact hcalls)
      (by rw [hpool]; exact hcounts _) rfl (.refl rfl _)
  · exact hw.work rfl (Function.update_of_ne hq _ _) rfl (.refl rfl _)

/-- The killer had no events when it was connected, so there are none to schedule. -/
theorem killing_killRead {m total : ℕ} (hw : ∀ q, w.Killing q)
    (hk : (w.pools n).kill = .unlocked m total) (q : ℕ) :
    (w.setKill n (.connecting (if (w.stages (.killer n)).connected then m else 0)
      total)).Killing q := by
  have hm : m = 0 := by
    have := (hw n).counts
    unfold KillCounts at this
    rw [hk] at this
    exact this.1
  rw [hm, ite_self]
  refine killing_setKill (hw q) (by rw [hk, hm]; rfl) fun m' h => ?_
  unfold KillCounts at h
  rw [hk] at h
  exact ⟨rfl, h.2⟩

theorem killing_killConnected {total : ℕ} (hw : w.Killing q)
    (hk : (w.pools n).kill = .connecting 0 total) :
    (w.setKill n (.generating total total)).Killing q := by
  refine killing_setKill hw (by rw [hk]; rfl) fun m h => ?_
  unfold KillCounts at h
  rw [hk] at h
  obtain ⟨-, htk, hpos, hout, htotal, hn⟩ := h
  exact ⟨htk, hpos, by rw [hout, Nat.zero_add], htotal, hn⟩

/-- An event to kill a thread is added, and scheduled next. -/
theorem killing_killAddEvent {left total : ℕ} (hw : w.Killing q)
    (hacc : ∀ p, w.Accounted (.killer p))
    (hk : (w.pools n).kill = .generating (left + 1) total) :
    ((w.addEvent (.killer n) event).setKill n
      (if (w.stages (.killer n)).connected then .scheduling left total
        else .generating left total)).Killing q := by
  have hc : (w.stages (.killer n)).connected = true := by
    have := (hacc n).lived.kill n rfl
    rwa [hk] at this
  rw [if_pos hc]
  by_cases hq : q = n
  · subst hq
    have hpool : ((w.addEvent (.killer q) event).setKill q (.scheduling left total)).pools q
        = { w.pools q with kill := .scheduling left total } := Function.update_self _ _ _
    have hst : ((w.addEvent (.killer q) event).setKill q (.scheduling left total)).stages
        (.killer q) = (w.stages (.killer q)).addEvent event := Function.update_self _ _ _
    have hlist := hw.list
    have hcounts := hw.counts
    have hout : outstanding ((w.addEvent (.killer q) event).setKill q (.scheduling left total)) q
        = w.outstanding q + 1 := by
      unfold outstanding
      rw [hpool, hk]
      show (w.pools q).runQueue.count _ + 1 + w.workers.countP _ = _ + 0 + w.workers.countP _ + 1
      omega
    unfold KillCounts at hcounts
    rw [hk] at hcounts hlist
    obtain ⟨htk, hpos, hleft, htotal, hn⟩ := hcounts
    constructor
    · rw [hst]
      exact hw.pool
    · rw [hst, hpool]
      show ((w.stages (.killer q)).eventList ++ [event]).length = (w.pools q).runQueue.count _ + 1
        + w.workers.countP _
      rw [List.length_append, List.length_singleton, hlist]
      show _ + 0 + w.workers.countP _ + 1 = _
      omega
    · exact hw.calls
    · exact hw.handlers
    · rw [hpool, hout]
      exact ⟨htk, hpos, by omega, htotal, hn⟩
  · have hs : StageId.killer q ≠ .killer n := fun h => hq (StageId.killer.inj h)
    exact hw.work (addEvent_stages w _ _ _ |>.trans (if_neg hs)) (Function.update_of_ne hq _ _) rfl
      (.refl rfl _)

/-- The token of the event to kill a thread is in the run queue. -/
theorem killing_killSchedule {k : KillPc} {woken : ℕ} (hw : w.Killing q) (hn : w.Killing n)
    (hacc : ∀ p, w.Accounted (.killer p)) (hk : (w.pools n).kill.called = some k)
    (h : (w.setKill n k).schedule (.killer n) none woken = some u) : u.Killing q := by
  have hcalled := (KillPc.called_spec hk).1
  have hpend : 0 < w.pending (.killer n) := by
    have : 0 < w.ownCalls (.killer n) := by
      show 0 < (w.pools n).kill.calls
      omega
    unfold pending
    omega
  obtain ⟨hpool, hne⟩ := (hacc n).callable hpend
  rcases schedule_cases h with ⟨-, h0 | h0⟩ | ⟨p, ws, hp, rfl, hws⟩
  · exact absurd h0 hpool
  · exact absurd h0 hne
  · obtain rfl := hn.pool p hp
    have hwork : SameCounts w { (w.setKill p k).pushBack p (.killer p) with
        workers := ws } (roles q) := by
      rcases hws with hws | ⟨rfl, -⟩
      · exact sameCounts_wakeOne rfl hws
          (forall_roles.2 ⟨fun _ => rfl, fun _ => rfl, fun _ => rfl⟩)
      · exact .refl rfl _
    by_cases hq : q = p
    · subst hq
      have hpools : ((w.setKill q k).pushBack q (.killer q)).pools q
          = { w.pools q with runQueue := (w.pools q).runQueue ++ [.killer q], kill := k } := by
        unfold pushBack setKill
        rw [setPool_pools, if_pos rfl, setPool_pools, if_pos rfl]
      have hcount : ((w.pools q).runQueue ++ [StageId.killer q]).count (.killer q)
          = (w.pools q).runQueue.count (.killer q) + 1 := by
        rw [List.count_append, List.count_singleton_self]
      obtain ⟨hhandlers, hpopped, htoDie⟩ := forall_roles.1 hwork
      have hlist := hw.list
      have hcounts := hw.counts
      have hout : outstanding { (w.setKill q k).pushBack q (.killer q) with workers := ws } q
          = w.outstanding q := by
        unfold outstanding
        dsimp only at htoDie ⊢
        rw [hpools, htoDie]
        show ((w.pools q).runQueue ++ [StageId.killer q]).count _ + k.calls + _ = _
        rw [hcount]
        omega
      constructor
      · exact hw.pool
      · dsimp only
        rw [hpools]
        show (w.stages (.killer q)).eventList.length
          = ((w.pools q).runQueue ++ [StageId.killer q]).count _ + k.calls + ws.countP _
        have : ws.countP (Worker.popped (.killer q)) = w.popped (.killer q) := hpopped
        rw [hcount, hlist]
        omega
      · exact hw.calls
      · exact hhandlers.trans hw.handlers
      · rw [hout]
        dsimp only
        rw [hpools]
        unfold KillPc.called at hk
        unfold KillCounts at hcounts
        split at hk
        · rename_i m total hpc
          rw [hpc] at hcounts
          exact absurd hcounts.1 (Nat.succ_ne_zero m)
        · rename_i left total hpc
          rw [hpc] at hcounts
          cases hk
          exact hcounts
        · cases hk
    · have hpools : ((w.setKill p k).pushBack p (.killer p)).pools q = w.pools q := by
        unfold pushBack setKill
        rw [setPool_pools, if_neg hq, setPool_pools, if_neg hq]
      exact hw.work rfl hpools rfl hwork

theorem killing_killWait {total : ℕ} (hw : w.Killing q)
    (hk : (w.pools n).kill = .generating 0 total) :
    (w.setPool n { w.pools n with threadsToKill := total, kill := .waiting total }).Killing q := by
  by_cases hq : q = n
  · subst hq
    have hpool : (w.setPool q { w.pools q with
        threadsToKill := total, kill := .waiting total }).pools q
        = { w.pools q with threadsToKill := total, kill := .waiting total } :=
      Function.update_self _ _ _
    refine hw.congr rfl rfl ?_ ?_ (fun hcounts => ?_) rfl (.refl rfl _) <;> rw [hpool]
    · rw [hk]
      rfl
    · unfold KillCounts at hcounts
      rw [hk] at hcounts
      obtain ⟨-, hpos, hout, htotal, hn⟩ := hcounts
      rw [Nat.add_zero] at hout
      refine ⟨hout.symm, hout ▸ hpos, htotal, ?_⟩
      show (w.pools q).nthreads + total = (w.pools q).before + (w.pools q).added + w.outstanding q
      rw [hn, hout]
  · exact hw.work rfl (Function.update_of_ne hq _ _) rfl (.refl rfl _)

theorem killing_killWake {total : ℕ} (hw : w.Killing q)
    (hk : (w.pools n).kill = .waiting total ∨ (w.pools n).kill = .signalled total)
    (hsig : (w.pools n).kill.waits = true → w.outstanding n = 0) :
    (w.killDisconnect n total).Killing q := by
  unfold killDisconnect
  dsimp only
  split_ifs
  · by_cases hq : q = n
    · subst hq
      have hv : (w.setKill q (.disconnecting total)).Killing q := by
        have hpool : (w.setKill q (.disconnecting total)).pools q
            = { w.pools q with kill := .disconnecting total } := Function.update_self _ _ _
        refine hw.congr rfl rfl ?_ ?_ (fun hcounts => ?_) rfl (.refl rfl _) <;> rw [hpool]
        · rcases hk with hk | hk <;> rw [hk] <;> rfl
        · unfold KillCounts at hcounts
          rcases hk with hk | hk <;> rw [hk] at hcounts
          · have := hsig (by rw [hk]; rfl)
            have := hcounts.2.1
            omega
          · exact hcounts
      have hstage : ((w.setKill q (.disconnecting total)).setStage (.killer q)
          { w.stages (.killer q) with connected := false }).stages (.killer q)
          = { w.stages (.killer q) with connected := false } := Function.update_self _ _ _
      have hpool' := congrArg SedaStage.thPool hstage
      have hlist' := congrArg SedaStage.eventList hstage
      exact hv.congr hpool' hlist' rfl rfl id rfl (.refl rfl _)
    · have hs : StageId.killer q ≠ .killer n := fun h => hq (StageId.killer.inj h)
      have hkill : OnlyStage w (w.setKill n (.disconnecting total)) (.killer n) :=
        onlyStage_setPool rfl
      exact hw.of_onlyStage (hkill.trans (onlyStage_setStage _ _ _)) hs
        (Function.update_of_ne hq _ _)
  · exact hw.abort _

theorem killing_killReturn {total : ℕ} (hw : w.Killing q)
    (hk : (w.pools n).kill = .disconnecting total) :
    ((w.disconnected (.killer n)).setKill n .none).Killing q := by
  by_cases hq : q = n
  · subst hq
    have hpool : ((w.disconnected (.killer q)).setKill q .none).pools q
        = { w.pools q with kill := .none } := Function.update_self _ _ _
    have hst : ((w.disconnected (.killer q)).setKill q .none).stages (.killer q)
        = { w.stages (.killer q) with thPool := none } := Function.update_self _ _ _
    have hlist := hw.list
    have hcounts := hw.counts
    have hout : outstanding ((w.disconnected (.killer q)).setKill q .none) q
        = w.outstanding q := by
      unfold outstanding
      rw [hpool, hk]
      rfl
    rw [hk] at hlist
    unfold KillCounts at hcounts
    rw [hk] at hcounts
    constructor
    · rw [hst]
      intro r hr
      cases hr
    · rw [hst, hpool]
      exact hlist
    · exact hw.calls
    · exact hw.handlers
    · rw [hpool, hout]
      exact ⟨hcounts.1, hcounts.2.1⟩
  · have hs : StageId.killer q ≠ .killer n := fun h => hq (StageId.killer.inj h)
    exact hw.of_onlyStage ((onlyStage_setStage w _ _).trans (onlyStage_setPool rfl)) hs
      (Function.update_of_ne hq _ _)

end SedaWorld

end Longda
