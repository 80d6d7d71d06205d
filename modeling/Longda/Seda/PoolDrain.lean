import Mathlib.Algebra.Group.Int.Defs
import Longda.Seda.EventRuns
import Longda.Seda.PoolWakeup
import Longda.Seda.PoolWork

/-!
# A pool left to itself finishes what it was given

Where no thread of a pool can take a step, its threads sleep, and the run queue is empty
(`drained_of_run`). Then nothing is left of what was scheduled for a stage of the pool that was
connected and disconnected in order: a `disconnect` of it need not wait any longer, and the events
of a connected one have been removed one and all.
-/

namespace Longda

open Lib

variable {ε : Type*}

/-- The stage the thread has taken off the run queue and not released. -/
def Worker.stage (x : Worker ε) : Option StageId :=
  match x.pc with
  | .popped s | .handling s _ _ | .dying s _ => some s
  | _ => none

namespace SedaWorld

variable {w u v : SedaWorld ε} {s r : StageId} {i p q n : ℕ} {pc pc' : WorkerPc ε} {x : Worker ε}
  {l : SedaStep ε}

/-- A connected stage has an event for each reference that is not in hand, but for the backlog that
its `unsigned int` lost when it was connected. -/
def Backed (w : SedaWorld ε) (s : StageId) : Prop :=
  (w.stages s).connected = true → ∃ lost : ℕ,
    (w.stages s).eventRef + lost * 2 ^ 32 = (w.stages s).eventList.length + w.processing s

/-- The threads that have the stage are of its pool, and it keeps what they have not taken. -/
structure Staffed (w : SedaWorld ε) (s : StageId) : Prop where
  placed : ∀ x ∈ w.workers, x.stage = some s → (w.stages s).thPool = some x.pool
  killer : ∀ p q, s = .killer p → (w.stages s).thPool = some q → q = p
  backed : w.Backed s

theorem Backed.congr (hw : w.Backed s) (hc : (u.stages s).connected = (w.stages s).connected)
    (href : (u.stages s).eventRef = (w.stages s).eventRef)
    (hlist : (u.stages s).eventList = (w.stages s).eventList)
    (hproc : u.processing s = w.processing s) : u.Backed s := by
  unfold Backed
  rw [hc, href, hlist, hproc]
  exact hw

/-- No thread has a stage whose reference count is zero. -/
theorem Accounted.not_held (hw : w.Accounted s) (h0 : (w.stages s).eventRef = 0) :
    ∀ x ∈ w.workers, x.stage ≠ some s := by
  obtain ⟨-, -, hpop, hproc⟩ := hw.balanced.idle h0
  intro x hx hstage
  have hnpop := List.countP_eq_zero.1 hpop x hx
  have hnproc := List.countP_eq_zero.1 hproc x hx
  obtain ⟨q, pc⟩ := x
  unfold Worker.stage at hstage
  unfold Worker.popped at hnpop
  unfold Worker.processes at hnproc
  cases pc <;> simp_all

/-- A token in a run queue is one of a stage of the pool. -/
theorem Accounted.of_token (hw : w.Accounted s) (hs : s ∈ (w.pools p).runQueue) :
    (w.stages s).thPool = some p := by
  by_contra hp
  exact absurd (hw.balanced.elsewhere p hp) (Nat.ne_of_gt (List.count_pos_iff.2 hs))

/-- The stage keeps its pool, or turns to another one while no thread has it. -/
theorem Staffed.mk_step (hw : w.Staffed s)
    (hworkers : ∀ x ∈ u.workers, x.stage = some s →
      x ∈ w.workers ∨ (u.stages s).thPool = some x.pool)
    (hpool : (u.stages s).thPool = (w.stages s).thPool
      ∨ (∀ x ∈ w.workers, x.stage ≠ some s)
        ∧ ∀ p q, s = .killer p → (u.stages s).thPool = some q → q = p)
    (hbacked : u.Backed s) : u.Staffed s where
  placed := by
    intro x hx hs
    rcases hworkers x hx hs with hold | hnew
    · rcases hpool with heq | ⟨h0, -⟩
      · rw [heq]
        exact hw.placed x hold hs
      · exact absurd hs (h0 x hold)
    · exact hnew
  killer := by
    rcases hpool with heq | ⟨-, h⟩
    · rw [heq]
      exact hw.killer
    · exact h
  backed := hbacked

/-- A step that is none of the stage's business here. -/
theorem Staffed.congr (hw : w.Staffed s) (hst : u.stages s = w.stages s)
    (hworkers : u.workers = w.workers) : u.Staffed s :=
  hw.mk_step (fun x hx _ => .inl (hworkers ▸ hx)) (.inl (by rw [hst]))
    (hw.backed.congr (by rw [hst]) (by rw [hst]) (by rw [hst])
      (by unfold processing; rw [hworkers]))

/-- A thread goes on, with the same stage or with one of its pool. -/
theorem Staffed.set (hw : w.Staffed s) (hx : w.workers[i]? = some ⟨p, pc⟩)
    (hu : u.workers = w.workers.set i ⟨p, pc'⟩) (hst : u.stages s = w.stages s)
    (hstage : Worker.stage ⟨p, pc'⟩ = some s → (w.stages s).thPool = some p)
    (hproc : Worker.processes s ⟨p, pc'⟩ = Worker.processes s ⟨p, pc⟩) : u.Staffed s := by
  refine hw.mk_step (fun y hy hs => ?_) (.inl (by rw [hst]))
    (hw.backed.congr (by rw [hst]) (by rw [hst]) (by rw [hst]) ?_)
  · rw [hu] at hy
    rcases List.mem_or_eq_of_mem_set hy with hy | rfl
    · exact .inl hy
    · exact .inr (by rw [hst]; exact hstage hs)
  · have hcount := countP_set hx (Worker.processes s) ⟨p, pc'⟩
    rw [hproc] at hcount
    unfold processing
    rw [hu]
    omega

theorem Staffed.schedule {caller : Option ℕ} {woken : ℕ} (hv : v.Staffed r)
    (h : v.schedule s caller woken = some u) : u.Staffed r := by
  rcases schedule_cases h with ⟨⟨a, rfl, -⟩, -⟩ | ⟨q, ws, -, rfl, hws⟩
  · exact hv.congr rfl rfl
  · rcases hws with hwake | ⟨rfl, -⟩
    · rcases wakeOne_eq_some.1 hwake with ⟨-, rfl⟩ | ⟨⟨q', pc⟩, hx, hwaits, rfl⟩
      · exact hv.congr rfl rfl
      · obtain rfl : pc = .waiting := Worker.waitsIn_pc hwaits
        exact hv.set hx rfl rfl (fun hs => by cases hs) rfl
    · exact hv.congr rfl rfl

theorem Staffed.look (hw : w.Staffed s) (hacc : w.Accounted s)
    (hx : w.workers[i]? = some ⟨p, pc⟩) (hpc : Free pc) : (w.look i p).Staffed s := by
  have hproc : Worker.processes s ⟨p, pc⟩ = false := (not_of_free hpc p s).2.2
  unfold SedaWorld.look
  split
  · exact hw.set hx rfl rfl (fun hs => by cases hs) hproc.symm
  · rename_i r rest hr
    refine hw.set hx rfl rfl (fun hs => ?_) hproc.symm
    obtain rfl : r = s := by simpa [Worker.stage] using hs
    exact hacc.of_token (by rw [hr]; exact List.mem_cons_self)

theorem Staffed.addEvent (hw : w.Staffed r) (s : StageId) (event : ε) :
    (w.addEvent s event).Staffed r := by
  have hst := addEvent_stages w s event r
  by_cases hr : r = s
  · subst hr
    rw [if_pos rfl] at hst
    refine hw.mk_step (fun x hx _ => .inl hx) (.inl (by rw [hst]; rfl)) fun hc => ?_
    rw [hst] at hc ⊢
    change (w.stages r).connected = true at hc
    obtain ⟨lost, hlost⟩ := hw.backed hc
    refine ⟨lost, ?_⟩
    change (if (w.stages r).connected then (w.stages r).eventRef + 1 else (w.stages r).eventRef)
      + lost * 2 ^ 32 = ((w.stages r).eventList ++ [event]).length + w.processing r
    rw [if_pos hc, List.length_append, List.length_singleton]
    omega
  · rw [if_neg hr] at hst
    exact hw.congr hst rfl

/-- A stage with nothing under way is connected, with a pool of its own if it is a killer. -/
theorem Staffed.connect {st : SedaStage ε} (hw : w.Staffed s)
    (hheld : ∀ x ∈ w.workers, x.stage ≠ some s) (hidle : w.processing s = 0)
    (hworkers : u.workers = w.workers) (hst : u.stages s = st.connect)
    (hpool : ∀ p q, s = .killer p → st.thPool = some q → q = p) : u.Staffed s := by
  refine hw.mk_step (fun x hx _ => .inl (hworkers ▸ hx)) (.inr ⟨hheld, ?_⟩)
    fun _ => ⟨st.eventList.length / 2 ^ 32, ?_⟩
  · rw [hst]
    exact hpool
  · have hproc : u.processing s = 0 := by
      unfold processing
      rw [hworkers]
      exact hidle
    rw [hst, hproc]
    have := Nat.mod_add_div' st.eventList.length (2 ^ 32)
    change ((st.eventList.length % 2 ^ 32 : ℕ) : ℤ) + _ = (st.eventList.length : ℤ) + 0
    omega

/-- A stage that is not connected turns to another pool. -/
theorem Staffed.turn {pool : Option ℕ} (hw : w.Staffed s)
    (hheld : ∀ x ∈ w.workers, x.stage ≠ some s) (hworkers : u.workers = w.workers)
    (hst : u.stages s = { w.stages s with thPool := pool })
    (hpool : ∀ p q, s = .killer p → pool = some q → q = p) : u.Staffed s := by
  refine hw.mk_step (fun x hx _ => .inl (hworkers ▸ hx)) (.inr ⟨hheld, by rw [hst]; exact hpool⟩)
    (hw.backed.congr (by rw [hst]) (by rw [hst]) (by rw [hst]) ?_)
  unfold processing
  rw [hworkers]

/-- A stage that is cut off. -/
theorem Staffed.close (hw : w.Staffed s) (hworkers : u.workers = w.workers)
    (hst : u.stages s = { w.stages s with connected := false }) : u.Staffed s := by
  refine hw.mk_step (fun x hx _ => .inl (hworkers ▸ hx)) (.inl (by rw [hst])) fun hc => ?_
  rw [hst] at hc
  cases hc

theorem staffed_removeEvent {event : ε} {st : SedaStage ε} (hw : w.Staffed r)
    (hx : w.workers[i]? = some ⟨p, .popped s⟩)
    (hr : (w.stages s).removeEvent = some (event, st)) :
    ((w.setStage s st).setWorker i p (.handling s event none)).Staffed r := by
  obtain ⟨rest, hlist, rfl⟩ : ∃ rest, (w.stages s).eventList = event :: rest
      ∧ st = { w.stages s with
          eventList := rest, removed := (w.stages s).removed ++ [event] } := by
    unfold SedaStage.removeEvent at hr
    split at hr
    · cases hr
    · rename_i se rest hl
      simp only [Option.some.injEq, Prod.mk.injEq] at hr
      obtain ⟨rfl, rfl⟩ := hr
      exact ⟨rest, hl, rfl⟩
  generalize hst : ({ w.stages s with
    eventList := rest, removed := (w.stages s).removed ++ [event] } : SedaStage ε) = st
  have hstages := setStage_stages w s st r
  have hcount := countP_set hx (Worker.processes r) ⟨p, .handling s event none⟩
  have hold : Worker.processes r (⟨p, .popped s⟩ : Worker ε) = false := rfl
  rw [hold] at hcount
  by_cases h : r = s
  · subst h
    have hself : Worker.processes r (⟨p, .handling r event none⟩ : Worker ε) = true :=
      decide_eq_true rfl
    rw [hself] at hcount
    rw [if_pos rfl] at hstages
    refine hw.mk_step (fun y hy _ => ?_) (.inl ?_) fun hc => ?_
    · rcases List.mem_or_eq_of_mem_set hy with hy | rfl
      · exact .inl hy
      · refine .inr ?_
        change ((w.setStage r st).stages r).thPool = some p
        rw [hstages, ← hst]
        exact hw.placed _ (List.mem_of_getElem? hx) rfl
    · change ((w.setStage r st).stages r).thPool = _
      rw [hstages, ← hst]
    · change ((w.setStage r st).stages r).connected = true at hc
      rw [hstages, ← hst] at hc
      obtain ⟨lost, hlost⟩ := hw.backed hc
      refine ⟨lost, ?_⟩
      change ((w.setStage r st).stages r).eventRef + _
        = ((w.setStage r st).stages r).eventList.length
          + (w.workers.set i ⟨p, .handling r event none⟩).countP (Worker.processes r)
      rw [hstages, ← hst]
      rw [hlist, List.length_cons] at hlost
      simp only [Bool.toNat_true, Bool.toNat_false] at hcount
      unfold processing at hlost
      dsimp only
      omega
  · have hself : Worker.processes r (⟨p, .handling s event none⟩ : Worker ε) = false :=
      decide_eq_false (Ne.symm h)
    rw [if_neg h] at hstages
    refine hw.set hx rfl hstages (fun hs => ?_) (hself.trans hold.symm)
    exact absurd (by simpa [Worker.stage] using hs : s = r) (Ne.symm h)

theorem staffed_releaseEvent (hw : w.Staffed r)
    (hx : w.workers[i]? = some ⟨p, pc⟩)
    (hpc : ∀ r, Worker.processes r ⟨p, pc⟩ = decide (s = r))
    (hfree : pc' = .looking ∨ pc' = .exited) :
    ((w.setStage s (w.stages s).releaseEvent).setWorker i p pc').Staffed r := by
  have hstages := setStage_stages w s (w.stages s).releaseEvent r
  have hcount := countP_set hx (Worker.processes r) ⟨p, pc'⟩
  have hnew : Worker.processes r ⟨p, pc'⟩ = false ∧ Worker.stage (⟨p, pc'⟩ : Worker ε) = none := by
    rcases hfree with rfl | rfl <;> exact ⟨rfl, rfl⟩
  rw [hpc, hnew.1] at hcount
  by_cases h : r = s
  · subst h
    rw [if_pos rfl] at hstages
    rw [decide_eq_true rfl] at hcount
    refine hw.mk_step (fun y hy hs => ?_) (.inl ?_) fun hc => ?_
    · rcases List.mem_or_eq_of_mem_set hy with hy | rfl
      · exact .inl hy
      · rw [hnew.2] at hs
        cases hs
    · change ((w.setStage r _).stages r).thPool = _
      rw [hstages]
      rfl
    · change ((w.setStage r _).stages r).connected = true at hc
      rw [hstages] at hc
      obtain ⟨lost, hlost⟩ := hw.backed hc
      refine ⟨lost, ?_⟩
      change ((w.setStage r _).stages r).eventRef + _ = ((w.setStage r _).stages r).eventList.length
        + (w.workers.set i ⟨p, pc'⟩).countP (Worker.processes r)
      rw [hstages]
      simp only [Bool.toNat_true, Bool.toNat_false] at hcount
      change (w.stages r).eventRef - 1 + _ = (w.stages r).eventList.length + _
      unfold processing at hlost
      omega
  · rw [if_neg h] at hstages
    refine hw.set hx rfl hstages (fun hs => ?_) ?_
    · rw [hnew.2] at hs
      cases hs
    · rw [hnew.1, hpc, decide_eq_false (Ne.symm h)]

/-- A step of another stage. -/
theorem Staffed.of_onlyStage (hw : w.Staffed r) (h : OnlyStage w u s) (hr : r ≠ s) :
    u.Staffed r := hw.congr (h.stages r hr) h.workers

theorem Staffed.step (hw : w.Staffed r) (hacc : w.Accounted r) (hm : w.Orderly r l)
    (hs : w.step l = some u) : u.Staffed r := by
  obtain ⟨hab, ht⟩ := takes_of_step hs
  cases l with
  | addThreads p n =>
    obtain ⟨-, rfl⟩ := ht
    refine hw.mk_step (fun x hx hs => ?_) (.inl rfl) (hw.backed.congr rfl rfl rfl ?_)
    · rcases List.mem_append.1 hx with hx | hx
      · exact .inl hx
      · rw [List.eq_of_mem_replicate hx] at hs
        cases hs
    · change (w.workers ++ _).countP _ = _
      rw [List.countP_append, List.countP_replicate]
      rfl
  | addEvent n event =>
    subst ht
    exact (hw.addEvent _ event).congr rfl rfl
  | schedule s woken =>
    have hv : { w with calls := w.calls.erase s : SedaWorld ε }.Staffed r := hw.congr rfl rfl
    exact hv.schedule ht.2
  | look i =>
    obtain ⟨p, hx, rfl⟩ := ht
    exact hw.look hacc hx (.inl rfl)
  | wake i =>
    obtain ⟨p, pc, hx, hpc, rfl⟩ := ht
    have hv : (w.setPool p { w.pools p with nIdles := (w.pools p).nIdles - 1 }).Staffed r :=
      hw.congr rfl rfl
    exact hv.look (accounted_setPool hacc rfl rfl) hx (.inr hpc)
  | removeEvent i =>
    obtain ⟨p, s, hx, ⟨-, rfl⟩ | ⟨event, st, hr, rfl⟩⟩ := ht
    · exact hw.congr rfl rfl
    · exact staffed_removeEvent hw hx hr
  | handlerAddEvent i n event =>
    obtain ⟨p, m, e, hx, rfl⟩ := ht
    have hv := hw.addEvent (.stage n) event
    refine hv.set hx rfl rfl (fun hs => ?_) rfl
    obtain rfl : .stage m = r := by simpa [Worker.stage] using hs
    exact hv.placed _ (List.mem_of_getElem? hx) rfl
  | handlerSchedule i woken =>
    obtain ⟨p, m, e, s, hx, h⟩ := ht
    have hv : (w.setWorker i p (.handling m e none)).Staffed r := by
      refine hw.set hx rfl rfl (fun hs => ?_) rfl
      obtain rfl : m = r := by simpa [Worker.stage] using hs
      exact hw.placed _ (List.mem_of_getElem? hx) rfl
    exact hv.schedule h
  | threadKill i =>
    obtain ⟨p, k, e, hx, ⟨-, rfl⟩ | ⟨q, -, -, rfl⟩⟩ := ht
    · exact hw.congr rfl rfl
    · have hv : (w.threadKill q).Staffed r := hw.congr rfl rfl
      refine hv.set hx rfl rfl (fun hs => ?_) rfl
      obtain rfl : .killer k = r := by simpa [Worker.stage] using hs
      exact hw.placed _ (List.mem_of_getElem? hx) rfl
  | releaseEvent i =>
    obtain ⟨p, s, pc, pc', hx, ⟨n, e, rfl, rfl, rfl⟩ | ⟨e, rfl, rfl⟩, rfl⟩ := ht
    · exact staffed_releaseEvent hw hx (fun _ => rfl) (.inl rfl)
    · exact staffed_releaseEvent hw hx (fun _ => rfl) (.inr rfl)
  | setPool n p =>
    obtain ⟨-, rfl⟩ | ⟨hc, rfl⟩ := ht
    · exact hw.congr rfl rfl
    · by_cases hr : r = .stage n
      · subst hr
        have h0 := hacc.lived.quiet hc (not_closing_stage (hm rfl))
        exact hw.turn (hacc.not_held h0) rfl
          ((setStage_stages w _ _ _).trans (if_pos rfl)) fun _ _ h => by cases h
      · exact hw.of_onlyStage (onlyStage_setStage w _ _) hr
  | connect n success =>
    subst ht
    unfold SedaWorld.connect
    split_ifs
    · exact hw.congr rfl rfl
    · exact hw.congr rfl rfl
    · exact hw
  | connectLock n =>
    obtain ⟨-, rfl⟩ := ht
    by_cases hr : r = .stage n
    · subst hr
      obtain ⟨hc, -, hwaits⟩ := hm rfl
      have h0 := hacc.lived.quiet hc (not_closing_stage hwaits)
      exact hw.connect (hacc.not_held h0) (hacc.balanced.idle h0).2.2.2 rfl
        ((setStage_stages w _ _ _).trans (if_pos rfl)) fun _ _ h => by cases h
    · exact hw.of_onlyStage ((onlyStage_setStage w _ _).trans (onlyStage_setLife _ n _)) hr
  | connectRead n backlog =>
    obtain ⟨-, rfl⟩ := ht
    exact hw.congr rfl rfl
  | disconnect n =>
    subst ht
    unfold disconnect
    split_ifs <;> exact hw.congr rfl rfl
  | disconnectLock n =>
    obtain ⟨-, rfl⟩ := ht
    by_cases hr : r = .stage n
    · subst hr
      exact hw.close rfl ((setStage_stages w _ _ _).trans (if_pos rfl))
    · exact hw.of_onlyStage ((onlyStage_setStage w _ _).trans (onlyStage_setLife _ n _)) hr
  | disconnectReturn n =>
    obtain ⟨-, h0, rfl⟩ := ht
    by_cases hr : r = .stage n
    · subst hr
      exact hw.turn (hacc.not_held h0) rfl ((setStage_stages w _ _ _).trans (if_pos rfl))
        fun _ _ h => by cases h
    · exact hw.of_onlyStage ((onlyStage_setStage w _ _).trans (onlyStage_setLife _ n _)) hr
  | killThreads p threads =>
    obtain ⟨hk, rfl⟩ := ht
    unfold killThreads
    dsimp only
    split_ifs with htk hconn
    · exact hw
    · exact hw.congr rfl rfl
    · by_cases hr : r = .killer p
      · subst hr
        have hopen : ¬w.Closing (.killer p) := not_closing_killer (by rw [hk]; rfl)
        have h0 := hacc.lived.quiet (by simpa using hconn) hopen
        refine hw.connect (hacc.not_held h0) (hacc.balanced.idle h0).2.2.2 rfl
          ((setStage_stages _ _ _ _).trans (if_pos rfl)) fun p' q h hq => ?_
        cases h
        exact (Option.some.inj hq).symm
      · exact hw.congr ((setStage_stages _ _ _ _).trans (if_neg hr)) rfl
  | killRead p =>
    obtain ⟨m, total, -, rfl⟩ := ht
    exact hw.congr rfl rfl
  | killConnected p =>
    obtain ⟨total, -, rfl⟩ := ht
    exact hw.congr rfl rfl
  | killAddEvent p event =>
    obtain ⟨left, total, -, rfl⟩ := ht
    exact (hw.addEvent _ event).congr rfl rfl
  | killSchedule p woken =>
    obtain ⟨k, -, h⟩ := ht
    have hv : (w.setKill p k).Staffed r := hw.congr rfl rfl
    exact hv.schedule h
  | killWait p =>
    obtain ⟨total, -, rfl⟩ := ht
    exact hw.congr rfl rfl
  | killWake p =>
    obtain ⟨total, -, rfl⟩ := ht
    unfold killDisconnect
    dsimp only
    split_ifs
    · by_cases hr : r = .killer p
      · subst hr
        exact hw.close rfl ((setStage_stages _ _ _ _).trans (if_pos rfl))
      · exact hw.congr ((setStage_stages _ _ _ _).trans (if_neg hr)) rfl
    · exact hw.congr rfl rfl
  | killReturn p =>
    obtain ⟨total, -, h0, rfl⟩ := ht
    by_cases hr : r = .killer p
    · subst hr
      exact hw.turn (hacc.not_held h0) rfl ((setStage_stages w _ _ _).trans (if_pos rfl))
        fun _ _ _ h => by cases h
    · exact hw.congr ((setStage_stages w _ _ _).trans (if_neg hr)) rfl

theorem staffed_start (s : StageId) : ({} : SedaWorld ε).Staffed s where
  placed := fun _ hx => by cases hx
  killer := fun _ _ _ h => by cases h
  backed := fun h => by cases h

/-! What there is to do, and what is left where there is nothing to do. -/

/-- The threads of the pool are blocked on the run condition, without a signal, or have exited. -/
def AtRest (w : SedaWorld ε) (p : ℕ) : Prop :=
  ∀ x ∈ w.workers, x.pool = p → x.pc = .waiting ∨ x.pc = .exited

/-- The pool has nothing left to do for the stage. -/
structure Drained (w : SedaWorld ε) (s : StageId) : Prop where
  /-- Where no schedule call is still to be made, a `disconnect` that waits can return. -/
  eventRef : w.pending s = 0 → (w.stages s).eventRef = 0
  /-- All that was added to a connected stage has been removed, in this order. -/
  removed : w.pending s = 0 → (w.stages s).connected = true →
    (w.stages s).eventList.length < 2 ^ 32 → (w.stages s).removed = (w.stages s).entered

theorem processes_stage (h : Worker.processes s x = true) : x.stage = some s := by
  obtain ⟨q, pc⟩ := x
  unfold Worker.processes at h
  unfold Worker.stage
  cases pc <;> simp_all

theorem popped_stage (h : Worker.popped s x = true) : x.stage = some s := by
  obtain ⟨q, pc⟩ := x
  unfold Worker.popped at h
  unfold Worker.stage
  cases pc <;> simp_all

/-- A thread at rest has no stage. -/
theorem AtRest.stage (hrest : w.AtRest p) (hx : x ∈ w.workers) (hp : x.pool = p) :
    x.stage = none := by
  unfold Worker.stage
  rcases hrest x hx hp with h | h <;> rw [h]

/-- No thread at rest is awake, so none is needed. -/
theorem AtRest.runQueue (hrest : w.AtRest p) (hwake : w.Wakeful p) (hb : 0 < w.blocked p) :
    (w.pools p).runQueue = [] := by
  have hawake : w.awake p = 0 := by
    refine List.countP_eq_zero.2 fun x hx hax => ?_
    obtain ⟨q, pc⟩ := x
    unfold Worker.awakeIn at hax
    simp only [Bool.and_eq_true, decide_eq_true_eq] at hax
    rcases hrest _ hx hax.1 with h | h <;> simp only at h <;> subst h <;> simp at hax
  have := hwake.attended hb
  exact List.eq_nil_of_length_eq_zero (by omega)

theorem AtRest.drained (hrest : w.AtRest p) (hqueue : (w.pools p).runQueue = [])
    (hw : w.Staffed s) (hacc : w.Accounted s) (hs : (w.stages s).thPool = some p) :
    w.Drained s := by
  -- a thread with the stage is one of the pool
  have hidle : ∀ x ∈ w.workers, x.stage ≠ some s := by
    intro x hx hxs
    have hpool := hw.placed x hx hxs
    rw [hs, Option.some.injEq] at hpool
    rw [hrest.stage hx hpool.symm] at hxs
    cases hxs
  have htok : w.tokens s = 0 := by
    rw [tokens_eq hs, hqueue, List.count_nil]
  have hpop : w.popped s = 0 :=
    List.countP_eq_zero.2 fun x hx h => hidle x hx (popped_stage h)
  have hproc : w.processing s = 0 :=
    List.countP_eq_zero.2 fun x hx h => hidle x hx (processes_stage h)
  have href : w.pending s = 0 → (w.stages s).eventRef = 0 := by
    intro hpend
    rw [hacc.balanced.ref, htok, hpend, hpop, hproc]
    rfl
  refine ⟨href, fun hpend hc hlen => ?_⟩
  obtain ⟨lost, hlost⟩ := hw.backed hc
  rw [href hpend, hproc] at hlost
  have hnil : (w.stages s).eventList = [] := List.eq_nil_of_length_eq_zero (by omega)
  rw [hacc.balanced.order, hnil, List.append_nil]

theorem exists_schedule (v : SedaWorld ε) (s : StageId) (caller : Option ℕ) :
    ∃ woken u, v.schedule s caller woken = some u := by
  unfold SedaWorld.schedule
  rcases (v.stages s).thPool with _ | p
  · exact ⟨0, _, rfl⟩
  · dsimp only
    split_ifs with he
    · exact ⟨0, _, rfl⟩
    · unfold push
      split_ifs with hsig
      · obtain ⟨woken, ws, hws⟩ := exists_wakeOne (Worker.waitsIn p) Worker.signal v.workers
        exact ⟨woken, _, by rw [hws]; rfl⟩
      · exact ⟨0, _, rfl⟩

/-- A thread has an event of a `KillThreadStage` only while threads of its pool are killed. -/
theorem Staffed.no_kill {k : ℕ} {e : ε} {call : Option StageId} (hw : w.Staffed (.killer k))
    (hacc : w.Accounted (.killer k)) (hk : (w.pools p).kill = .none)
    (hx : w.workers[i]? = some ⟨p, .handling (.killer k) e call⟩) : False := by
  have hpool := hw.placed _ (List.mem_of_getElem? hx) rfl
  obtain rfl := hw.killer k p rfl hpool
  have hc := hacc.lived.kill p rfl
  rw [hk] at hc
  have hopen : ¬w.Closing (.killer p) := not_closing_killer (by rw [hk]; rfl)
  exact hacc.not_held (hacc.lived.quiet hc hopen) _ (List.mem_of_getElem? hx) rfl

/-- The threads of a pool get on unless they are at rest. -/
theorem progress (hw : ∀ k, w.Staffed (.killer k)) (hacc : ∀ k, w.Accounted (.killer k))
    (hab : w.aborted = none) (hk : (w.pools p).kill = .none) :
    (∃ l u, w.atWork p l = true ∧ w.step l = some u) ∨ w.AtRest p := by
  by_cases hrest : w.AtRest p
  · exact .inr hrest
  left
  simp only [AtRest, not_forall, not_or] at hrest
  obtain ⟨⟨q, pc⟩, hx, rfl, hwait, hexit⟩ := hrest
  obtain ⟨i, hi⟩ := List.mem_iff_getElem?.1 hx
  have hturn : ∀ l : SedaStep ε, l.thread = some i → w.atWork q l = true := by
    intro l hl
    rw [atWork_thread hl hi]
    cases pc <;> simp_all [Worker.waitsIn]
  have hgo : w.aborted.isSome = false := by rw [hab]; rfl
  cases pc with
  | looking =>
    exact ⟨.look i, w.look i q, hturn _ rfl, by simp [step, hgo, hi]⟩
  | waiting => exact absurd rfl hwait
  | signalled =>
    exact ⟨.wake i, _, hturn _ rfl, by simp [step, hgo, hi]; rfl⟩
  | popped s =>
    rcases hr : (w.stages s).removeEvent with _ | ⟨event, st⟩
    · exact ⟨.removeEvent i, _, hturn _ rfl, by simp [step, hgo, hi, hr]; rfl⟩
    · exact ⟨.removeEvent i, _, hturn _ rfl, by simp [step, hgo, hi, hr]; rfl⟩
  | handling r e call =>
    rcases call with _ | s
    · cases r with
      | stage n =>
        exact ⟨.releaseEvent i, _, hturn _ rfl, by simp [step, hgo, hi]; rfl⟩
      | killer k => exact ((hw k).no_kill (hacc k) hk hi).elim
    · obtain ⟨woken, u, hu⟩ := exists_schedule (w.setWorker i q (.handling r e none)) s (some q)
      exact ⟨.handlerSchedule i woken, u, hturn _ rfl, by simp [step, hgo, hi, hu]⟩
  | dying s e => exact ⟨.releaseEvent i, _, hturn _ rfl, by simp [step, hgo, hi]; rfl⟩
  | exited => exact absurd rfl hexit

theorem run_staffed {ls : List (SedaStep ε)} (hr : (seda ε).run {} ls = some w)
    (hm : (seda ε).Meets (fun w l => w.Orderly s l) {} ls) : w.Sound s ∧ w.Staffed s :=
  (seda ε).run_inv (I := fun w => w.Sound s ∧ w.Staffed s)
    (fun _ _ _ hw hm hs => ⟨hw.1.step hm hs, hw.2.step hw.1.accounted hm hs⟩) ls
    ⟨sound_start s, staffed_start s⟩ hm hr

/-- Wherever a run leaves a pool of which no threads are being killed, its threads can get on, or
they are at rest with an empty run queue, unless they have all exited, and leave nothing of what was
scheduled for a stage of the pool that the run was orderly for. -/
theorem drained_of_run {ls : List (SedaStep ε)} (hr : (seda ε).run {} ls = some w)
    (hab : w.aborted = none) (hk : (w.pools p).kill = .none) :
    ((∃ l u, w.atWork p l = true ∧ (seda ε).step w l = some u) ∨ w.AtRest p)
      ∧ (w.AtRest p → 0 < w.blocked p → (w.pools p).runQueue = []
        ∧ ∀ s, (w.stages s).thPool = some p →
          (seda ε).Meets (fun w l => w.Orderly s l) {} ls → w.Drained s) := by
  have hkillers := fun k =>
    run_staffed hr ((seda ε).meets_of_all (fun w l => orderly_killer w k l) ls {})
  have hwake := ((seda ε).run_inv_of_step (fun _ _ _ hw hs => PoolsWakeful.step hw hs) ls
    wakeful_start hr).pools p
  refine ⟨progress (fun k => (hkillers k).2) (fun k => (hkillers k).1.accounted) hab hk,
    fun hrest hb => ?_⟩
  have hqueue := hrest.runQueue hwake hb
  refine ⟨hqueue, fun s hs hm => ?_⟩
  obtain ⟨hsound, hstaffed⟩ := run_staffed hr hm
  exact hrest.drained hqueue hstaffed hsound.accounted hs

/-- One thread handles the one event and sleeps. -/
theorem drained_of_run_one_event : ∃ w, (seda ℕ).run {}
      [.addThreads 0 1, .setPool 0 0, .connect 0 true, .connectLock 0, .connectRead 0 0,
        .addEvent 0 7, .schedule (.stage 0) 0, .look 0, .removeEvent 0, .releaseEvent 0,
        .look 0] = some w
    ∧ w.AtRest 0 ∧ w.Drained (.stage 0) := by
  obtain ⟨w, hr, hab, hk, hworkers, hb, hp⟩ : ∃ w, (seda ℕ).run {}
      [.addThreads 0 1, .setPool 0 0, .connect 0 true, .connectLock 0, .connectRead 0 0,
        .addEvent 0 7, .schedule (.stage 0) 0, .look 0, .removeEvent 0, .releaseEvent 0,
        .look 0] = some w
      ∧ w.aborted = none ∧ (w.pools 0).kill = .none ∧ w.workers = [⟨0, .waiting⟩]
      ∧ w.blocked 0 = 1 ∧ (w.stages (.stage 0)).thPool = some 0 :=
    ⟨_, rfl, rfl, rfl, rfl, rfl, rfl⟩
  have hrest : w.AtRest 0 := by
    intro x hx _
    rw [hworkers, List.mem_singleton] at hx
    exact .inl (by rw [hx])
  exact ⟨w, hr, hrest, ((drained_of_run hr hab hk).2 hrest (by omega)).2 _ hp (by decide)⟩

end SedaWorld

end Longda
