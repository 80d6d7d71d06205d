import Longda.Seda.EventAccounting

/-!
# The steps of an event

What adds events, schedules stages, and takes events off their stages to handle them keeps the
accounts of every stage, and no assertion fails on the way (`Sound`).
-/

namespace Longda

open Lib

variable {ε : Type*}

def SedaAssert.stage : SedaAssert → StageId
  | .lifecycle s | .pool s | .schedule s | .removeEvent s => s

namespace SedaWorld

variable {w u v : SedaWorld ε} {s r : StageId} {i p q n : ℕ} {pc : WorkerPc ε} {event : ε}
  {woken : ℕ}

/-- A pool changes in what the accounts do not depend on. -/
theorem accounted_setPool {pool : Pool} (hw : w.Accounted s)
    (hq : pool.runQueue = (w.pools p).runQueue) (hk : pool.kill = (w.pools p).kill) :
    (w.setPool p pool).Accounted s :=
  hw.congr rfl (.of_eq rfl (setPool_keeps Pool.kill hk)) rfl
    (fun q => by rw [setPool_keeps Pool.runQueue hq]) (.refl rfl _)

/-- The thread has neither an event nor a stage. -/
def Free (pc : WorkerPc ε) : Prop := pc = .looking ∨ pc = .waiting ∨ pc = .signalled

theorem not_of_free (hpc : Free pc) (p : ℕ) (s : StageId) : Worker.calls s ⟨p, pc⟩ = false
    ∧ Worker.popped s ⟨p, pc⟩ = false ∧ Worker.processes s ⟨p, pc⟩ = false := by
  rcases hpc with rfl | rfl | rfl <;> exact ⟨rfl, rfl, rfl⟩

/-- The run queue is looked at, and a stage taken off it if there is one. -/
theorem accounted_look (hw : w.Accounted s) (hx : w.workers[i]? = some ⟨p, pc⟩)
    (hpc : Free pc) : (w.look i p).Accounted s := by
  obtain ⟨hcalls, hpopped, hprocesses⟩ := not_of_free hpc p s
  unfold look
  split
  · have hidle : (w.setPool p { w.pools p with nIdles := (w.pools p).nIdles + 1 }).Accounted s :=
      accounted_setPool hw rfl rfl
    refine hidle.congr rfl (.of_eq rfl fun _ => rfl) rfl (fun _ => rfl)
      (sameCounts_set hx rfl (forall_places.2 ⟨?_, ?_, ?_⟩))
    · exact hcalls.symm
    · exact hpopped.symm
    · exact hprocesses.symm
  · rename_i r rest hr
    have hc := countP_set hx (Worker.calls s) ⟨p, .popped r⟩
    have hp := countP_set hx (Worker.popped s) ⟨p, .popped r⟩
    have hh := countP_set hx (Worker.processes s) ⟨p, .popped r⟩
    rw [hcalls] at hc
    rw [hpopped] at hp
    rw [hprocesses] at hh
    have hlife : SameLife w ((w.setPool p { w.pools p with runQueue := rest }).setWorker i p
        (.popped r)) s := .of_eq rfl (setPool_keeps Pool.kill (by rfl))
    have hpend : pending ((w.setPool p { w.pools p with runQueue := rest }).setWorker i p
        (.popped r)) s = w.pending s := pending_congr rfl hc hlife.calls
    refine ⟨?_, hw.lived.congr rfl hlife⟩
    by_cases hs : r = s
    · subst hs
      refine hw.balanced.pop (p := p) rfl ?_ (fun q hne => ?_) hpend ?_ hh
      · show ((w.setPool p { w.pools p with runQueue := rest }).pools p).runQueue.count r + 1 = _
        rw [setPool_pools, if_pos rfl, hr, List.count_cons_self]
      · show ((w.setPool p { w.pools p with runQueue := rest }).pools q).runQueue.count r = _
        rw [setPool_pools, if_neg hne]
      · have hd : Worker.popped r (⟨p, .popped r⟩ : Worker ε) = true := decide_eq_true rfl
        rw [hd] at hp
        exact hp
    · refine hw.balanced.congr rfl (fun q => ?_) hpend ?_ hh
      · show ((w.setPool p { w.pools p with runQueue := rest }).pools q).runQueue.count s = _
        rw [setPool_pools]
        split_ifs with hqp
        · rw [hqp, hr, List.count_cons_of_ne hs]
        · rfl
      · have hd : Worker.popped s (⟨p, .popped r⟩ : Worker ε) = false := decide_eq_false hs
        rw [hd] at hp
        exact hp

theorem addEvent_stages (w : SedaWorld ε) (s : StageId) (event : ε) (r : StageId) :
    (w.addEvent s event).stages r
      = if r = s then (w.stages s).addEvent event else w.stages r := setStage_stages w s _ r

/-- An event is added to `s`, and its caller has a schedule call to make if `s` is connected. -/
theorem accounted_addEvent (hw : w.Accounted r) (hstages : u.stages = (w.addEvent s event).stages)
    (hq : ∀ q, (u.pools q).runQueue = (w.pools q).runQueue)
    (hclosing : u.Closing r ↔ w.Closing r)
    (hun : 0 < u.ownCalls r → (w.stages r).connected = true)
    (hk : ∀ p, r = .killer p → (u.pools p).kill.connects = (w.pools p).kill.connects)
    (hpend : u.pending r = w.pending r + (decide (s = r) && (w.stages s).connected).toNat)
    (hpop : u.popped r = w.popped r) (hproc : u.processing r = w.processing r) :
    u.Accounted r := by
  have hst : u.stages r = if r = s then (w.stages s).addEvent event else w.stages r := by
    rw [hstages]
    exact addEvent_stages w s event r
  by_cases hs : r = s
  · subst hs
    rw [if_pos rfl] at hst
    rw [decide_eq_true rfl, Bool.true_and] at hpend
    refine ⟨hw.balanced.enter hst (fun q => by rw [hq]) hpend hpop hproc,
      hw.lived.keep (by rw [hst]; rfl) (by rw [hst]; rfl) (fun hf h0 => ?_) hclosing hun hk⟩
    rw [hst]
    show (if (w.stages r).connected then _ else _) = _
    rw [hf]
    exact h0
  · rw [if_neg hs] at hst
    rw [decide_eq_false (Ne.symm hs), Bool.false_and] at hpend
    exact ⟨hw.balanced.congr hst (fun q => by rw [hq]) hpend hpop hproc,
      hw.lived.keep (by rw [hst]) (by rw [hst]) (fun _ h0 => by rw [hst, h0]) hclosing hun hk⟩

/-- `schedule`, from the state after its caller has left the call behind. -/
theorem accounted_schedule {caller : Option ℕ} {woken : ℕ} (hw : w.Accounted r)
    (hst : v.stages r = w.stages r) (hq : ∀ q, (v.pools q).runQueue = (w.pools q).runQueue)
    (hpend : v.pending r + (decide (s = r)).toNat = w.pending r)
    (hpop : v.popped r = w.popped r) (hproc : v.processing r = w.processing r)
    (hlived : v.Lived r) (h : v.schedule s caller woken = some u) :
    u.Accounted r ∧ (s = r → u.aborted = v.aborted) := by
  rcases schedule_cases h with ⟨⟨a, rfl, -⟩, h0⟩ | ⟨p, ws, hp, rfl, hws⟩
  · -- a call that fails its assertion is one of another stage
    have hsr : s ≠ r := by
      rintro rfl
      rw [decide_eq_true rfl] at hpend
      obtain ⟨hpool, hne⟩ := hw.callable (by rw [← hpend]; exact Nat.succ_pos _)
      rw [hst] at h0
      exact h0.elim hpool hne
    rw [decide_eq_false hsr] at hpend
    have hb : v.Balanced r := hw.balanced.congr hst (fun q => by rw [hq]) hpend hpop hproc
    exact ⟨⟨hb.congr rfl (fun _ => rfl) rfl rfl rfl, hlived.congr rfl (.of_eq rfl fun _ => rfl)⟩,
      fun hs => absurd hs hsr⟩
  · have hwork : SameCounts v { v.pushBack p s with workers := ws } (places r) := by
      rcases hws with hws | ⟨rfl, -⟩
      · exact sameCounts_wakeOne rfl hws
          (forall_places.2 ⟨fun _ => rfl, fun _ => rfl, fun _ => rfl⟩)
      · exact .refl rfl _
    have hlife : SameLife v { v.pushBack p s with workers := ws } r :=
      .of_eq rfl (pushBack_kill v p s)
    have hpend' : pending { v.pushBack p s with workers := ws } r = v.pending r :=
      pending_congr rfl hwork.calls hlife.calls
    have hqp : ((v.pushBack p s).pools p).runQueue = (w.pools p).runQueue ++ [s] := by
      rw [pushBack_runQueue, if_pos rfl, hq]
    have hqs : ∀ q ≠ p, ((v.pushBack p s).pools q).runQueue = (w.pools q).runQueue := by
      intro q hne
      rw [pushBack_runQueue, if_neg hne, hq]
    refine ⟨⟨?_, hlived.congr rfl hlife⟩, fun _ => rfl⟩
    by_cases hs : s = r
    · subst hs
      rw [decide_eq_true rfl] at hpend
      refine hw.balanced.push (p := p) hst (hst ▸ hp) ?_
        (fun q hne => congrArg _ (hqs q hne)) ?_ (hwork.popped.trans hpop)
        (hwork.processing.trans hproc)
      · exact (congrArg (List.count s) hqp).trans (by simp)
      · rw [hpend']
        exact hpend
    · rw [decide_eq_false hs] at hpend
      refine hw.balanced.congr hst (fun q => ?_) (hpend'.trans hpend)
        (hwork.popped.trans hpop) (hwork.processing.trans hproc)
      by_cases hne : q = p
      · subst hne
        refine (congrArg (List.count r) hqp).trans ?_
        rw [List.count_append, List.count_singleton, beq_false_of_ne hs]
        rfl
      · exact congrArg _ (hqs q hne)

/-- The accounts of the stage balance, and no assertion about it has failed but one on how it is
connected or disconnected. -/
structure Sound (w : SedaWorld ε) (r : StageId) : Prop where
  accounted : w.Accounted r
  asserted : ∀ a, w.aborted = some a → a.stage = r → ∃ n, a = .lifecycle (.stage n)

theorem Sound.of_accounted (h : u.Accounted r) (ha : u.aborted = none) : u.Sound r where
  accounted := h
  asserted := fun _ hu => by
    rw [ha] at hu
    cases hu

theorem Sound.abort {a : SedaAssert} (h : w.Accounted r)
    (ha : a.stage = r → ∃ n, a = .lifecycle (.stage n)) : (w.abort a).Sound r where
  accounted := h.congr rfl (.of_eq rfl fun _ => rfl) rfl (fun _ => rfl) (.refl rfl _)
  asserted := fun _ hu => Option.some.inj hu ▸ ha

theorem sound_start (r : StageId) : ({} : SedaWorld ε).Sound r where
  accounted := by
    have hown : ownCalls ({} : SedaWorld ε) r = 0 := by cases r <;> rfl
    have hclosing : ¬Closing ({} : SedaWorld ε) r := by
      cases r with
      | stage n => exact not_closing_stage rfl
      | killer p => exact not_closing_killer rfl
    refine ⟨⟨fun p _ => rfl, ?_, ?_, rfl⟩, ⟨fun _ => ⟨rfl, rfl⟩, fun _ _ => rfl,
      fun h => absurd h hclosing, fun h => ?_, fun _ _ => rfl⟩⟩
    · show (0 : ℤ) = ↑(0 + (0 + 0 + ownCalls _ r) + 0 + 0)
      rw [hown]
      rfl
    · show 0 + (0 + 0 + ownCalls _ r) + 0 ≤ 0
      omega
    · rw [hown] at h
      cases h
  asserted := fun _ ha => by cases ha

theorem sound_schedule {caller : Option ℕ} (h : v.schedule s caller woken = some u)
    (hw : w.Accounted r) (hab : v.aborted = none) (hst : v.stages r = w.stages r)
    (hq : ∀ q, (v.pools q).runQueue = (w.pools q).runQueue)
    (hpend : v.pending r + (decide (s = r)).toNat = w.pending r)
    (hpop : v.popped r = w.popped r) (hproc : v.processing r = w.processing r)
    (hlived : v.Lived r) : u.Sound r := by
  obtain ⟨hacc, ha⟩ := accounted_schedule hw hst hq hpend hpop hproc hlived h
  refine ⟨hacc, fun a hu hs => ?_⟩
  rcases schedule_cases h with ⟨⟨b, rfl, hb⟩, -⟩ | ⟨p, ws, -, rfl, -⟩
  · -- the assertion is about the stage of the call
    obtain rfl := Option.some.inj hu
    have hsr : s = r := by rcases hb with rfl | rfl <;> exact hs
    rw [ha hsr, hab] at hu
    cases hu
  · exact absurd (hu.symm.trans hab) (by simp)

/-- Nothing about `s` fails in `addEvent` but for the pool. -/
theorem addEvent_asserted {e : ε} (hw : w.Accounted r) (hab : w.aborted = none) (a : SedaAssert)
    (ha : (w.addEvent s e).aborted = some a) (hs : a.stage = r) :
    ∃ n, a = .lifecycle (.stage n) := by
  change (if _ then some (SedaAssert.pool s) else w.aborted) = _ at ha
  split_ifs at ha with h
  · cases ha
    obtain rfl : s = r := hs
    exact absurd ((hw.lived.pooled h.2).1.symm.trans h.1) (by simp)
  · rw [hab] at ha
    cases ha

section Steps

variable (hw : w.Accounted r) (hab : w.aborted = none)

include hw hab

theorem sound_addThreads (ht : w.Takes (.addThreads p n) u) : u.Sound r := by
  obtain ⟨-, rfl⟩ := ht
  have hpool : (w.setPool p { w.pools p with
      nthreads := (w.pools p).nthreads + n, added := (w.pools p).added + n }).Accounted r :=
    accounted_setPool hw rfl rfl
  refine .of_accounted (hpool.congr rfl (.of_eq rfl fun _ => rfl) rfl (fun _ => rfl)
    (sameCounts_append rfl (forall_places.2 ⟨?_, ?_, ?_⟩))) hab <;> exact Bool.false_ne_true

theorem sound_addEvent (ht : w.Takes (.addEvent n event) u) : u.Sound r := by
  dsimp only [Takes] at ht
  generalize StageId.stage n = s at ht
  subst ht
  refine ⟨?_, addEvent_asserted (s := s) (e := event) hw hab⟩
  have hlife : SameLife w { w.addEvent s event with
      calls := if (w.stages s).connected then s :: w.calls else w.calls } r :=
    .of_eq rfl fun _ => rfl
  refine accounted_addEvent hw rfl (fun _ => rfl) hlife.closing
    (by rw [hlife.calls]; exact hw.lived.unread) hlife.connects ?_ rfl rfl
  have hcalls : (if (w.stages s).connected then s :: w.calls else w.calls).count r
      = w.calls.count r + (decide (s = r) && (w.stages s).connected).toNat := by
    rcases (w.stages s).connected
    · simp
    · by_cases hs : s = r
      · simp [hs]
      · simp [hs, List.count_cons_of_ne hs]
  unfold pending
  rw [hlife.calls]
  show (if (w.stages s).connected then s :: w.calls else w.calls).count r
    + w.workers.countP (Worker.calls r) + _ = _
  rw [hcalls]
  omega

theorem sound_call (ht : w.Takes (.schedule s woken) u) : u.Sound r := by
  obtain ⟨hmem, h⟩ := ht
  have hlife : SameLife w { w with calls := w.calls.erase s } r := .of_eq rfl fun _ => rfl
  refine sound_schedule h hw hab rfl (fun _ => rfl) ?_ rfl rfl (hw.lived.congr rfl hlife)
  have hcount := (List.perm_cons_erase hmem).count_eq r
  rw [List.count_cons] at hcount
  have hd : (if (s == r) = true then 1 else 0) = (decide (s = r)).toNat := by
    by_cases hs : s = r <;> simp [hs]
  rw [hd] at hcount
  unfold pending
  rw [hlife.calls]
  show (w.calls.erase s).count r + w.workers.countP (Worker.calls r) + _ + _ = _
  omega

theorem sound_handlerSchedule (ht : w.Takes (.handlerSchedule i woken) u) : u.Sound r := by
  obtain ⟨p, m, e, s, hx, h⟩ := ht
  have hc : (w.workers.set i ⟨p, .handling m e none⟩).countP (Worker.calls r)
      + (decide (s = r)).toNat = w.workers.countP (Worker.calls r) := countP_set hx _ _
  have hp : (w.workers.set i ⟨p, .handling m e none⟩).countP (Worker.popped r) = w.popped r :=
    Nat.add_right_cancel (countP_set hx (Worker.popped r) _)
  have hh : (w.workers.set i ⟨p, .handling m e none⟩).countP (Worker.processes r)
      = w.processing r := Nat.add_right_cancel (countP_set hx (Worker.processes r) _)
  have hlife : SameLife w (w.setWorker i p (.handling m e none)) r := .of_eq rfl fun _ => rfl
  refine sound_schedule h hw hab rfl (fun _ => rfl) ?_ hp hh (hw.lived.congr rfl hlife)
  unfold pending
  rw [hlife.calls]
  show w.calls.count r + (w.workers.set i ⟨p, .handling m e none⟩).countP (Worker.calls r) + _ + _
    = _
  omega

theorem sound_look (ht : w.Takes (.look i) u) : u.Sound r := by
  obtain ⟨p, hx, rfl⟩ := ht
  refine .of_accounted (accounted_look hw hx (.inl rfl)) ?_
  unfold look
  split <;> exact hab

theorem sound_wake (ht : w.Takes (.wake i) u) : u.Sound r := by
  obtain ⟨p, pc, hx, hpc, rfl⟩ := ht
  have hpool : (w.setPool p { w.pools p with nIdles := (w.pools p).nIdles - 1 }).Accounted r :=
    accounted_setPool hw rfl rfl
  refine .of_accounted (accounted_look hpool hx (.inr hpc)) ?_
  unfold look
  split <;> exact hab

theorem sound_removeEvent (ht : w.Takes (.removeEvent i) u) : u.Sound r := by
  obtain ⟨p, s, hx, ⟨hnone, rfl⟩ | ⟨event, st, hr, rfl⟩⟩ := ht
  · refine .abort hw fun hs => ?_
    obtain rfl : s = r := hs
    obtain ⟨event, st, hr⟩ := hw.removable (countP_pos_of_getElem? hx (decide_eq_true rfl))
    rw [hr] at hnone
    cases hnone
  · have hc := countP_set hx (Worker.calls r) ⟨p, .handling s event none⟩
    have hp : (w.workers.set i ⟨p, .handling s event none⟩).countP (Worker.popped r)
      + (decide (s = r)).toNat = w.workers.countP (Worker.popped r) := countP_set hx _ _
    have hh : (w.workers.set i ⟨p, .handling s event none⟩).countP (Worker.processes r)
      = w.workers.countP (Worker.processes r) + (decide (s = r)).toNat :=
      countP_set hx (Worker.processes r) ⟨p, .handling s event none⟩
    have hlife : SameLife w ((w.setStage s st).setWorker i p (.handling s event none)) r :=
      .of_eq rfl fun _ => rfl
    have hpend : pending ((w.setStage s st).setWorker i p (.handling s event none)) r
        = w.pending r := pending_congr rfl hc hlife.calls
    refine .of_accounted ?_ hab
    by_cases hs : r = s
    · subst hs
      rw [decide_eq_true rfl] at hp hh
      have hst : ((w.setStage r st).setWorker i p (.handling r event none)).stages r = st :=
        (setStage_stages w r st r).trans (if_pos rfl)
      refine ⟨hw.balanced.remove hr hst rfl hpend hp hh, ?_⟩
      unfold SedaStage.removeEvent at hr
      split at hr
      · cases hr
      · simp only [Option.some.injEq, Prod.mk.injEq] at hr
        obtain ⟨rfl, rfl⟩ := hr
        exact hw.lived.keep (by rw [hst]) (by rw [hst]) (fun _ h0 => by rw [hst, ← h0])
          hlife.closing (by rw [hlife.calls]; exact hw.lived.unread) hlife.connects
    · rw [decide_eq_false (Ne.symm hs)] at hp hh
      have hst : ((w.setStage s st).setWorker i p (.handling s event none)).stages r = w.stages r :=
        (setStage_stages w s st r).trans (if_neg hs)
      exact ⟨hw.balanced.congr hst (fun _ => rfl) hpend hp hh, hw.lived.congr hst hlife⟩

theorem sound_handlerAddEvent (ht : w.Takes (.handlerAddEvent i n event) u) : u.Sound r := by
  obtain ⟨p, m, e, hx, hu⟩ := ht
  generalize StageId.stage n = s at hu
  subst hu
  have hc := countP_set hx (Worker.calls r)
    ⟨p, .handling (.stage m) e (if (w.stages s).connected then some s else none)⟩
  have hp := countP_set hx (Worker.popped r)
    ⟨p, .handling (.stage m) e (if (w.stages s).connected then some s else none)⟩
  have hh := countP_set hx (Worker.processes r)
    ⟨p, .handling (.stage m) e (if (w.stages s).connected then some s else none)⟩
  refine ⟨?_, addEvent_asserted (s := s) (e := event) hw hab⟩
  have hlife : SameLife w ((w.addEvent s event).setWorker i p (.handling (.stage m) e
      (if (w.stages s).connected then some s else none))) r := .of_eq rfl fun _ => rfl
  refine accounted_addEvent hw rfl (fun _ => rfl) hlife.closing
    (by rw [hlife.calls]; exact hw.lived.unread) hlife.connects ?_ hp (Nat.add_right_cancel hh)
  have hcalls : (w.workers.set i ⟨p, .handling (.stage m) e
      (if (w.stages s).connected then some s else none)⟩).countP (Worker.calls r)
      = w.workers.countP (Worker.calls r) + (decide (s = r) && (w.stages s).connected).toNat := by
    revert hc
    rcases (w.stages s).connected
    · rw [Bool.and_false]
      exact id
    · rw [Bool.and_true]
      exact id
  unfold pending
  rw [hlife.calls]
  show w.calls.count r + (w.workers.set i ⟨p, .handling (.stage m) e
    (if (w.stages s).connected then some s else none)⟩).countP (Worker.calls r) + _ = _
  omega

theorem sound_threadKill (ht : w.Takes (.threadKill i) u) : u.Sound r := by
  obtain ⟨p, q, e, hx, ⟨hnone, rfl⟩ | ⟨k, -, -, rfl⟩⟩ := ht
  · refine .abort hw fun hs => ?_
    obtain rfl : .killer q = r := hs
    exact absurd hnone (hw.pooled (countP_pos_of_getElem? hx (decide_eq_true rfl)))
  · have hkill : ∀ q', ((w.threadKill k).pools q').kill = (w.pools q').kill
        ∨ ((w.threadKill k).pools q').kill = (w.pools q').kill.signal := by
      intro q'
      unfold threadKill
      rw [setPool_pools]
      split_ifs with hq h0
      · rw [hq]
        exact .inr rfl
      · rw [hq]
        exact .inl rfl
      · exact .inl rfl
    -- `killThreads` is signalled or not, and has no call to make in either place
    have hsig : ∀ k : KillPc, k.signal.calls = k.calls ∧ k.signal.connects = k.connects
        ∧ k.signal.closes = k.closes := by
      intro k
      cases k <;> exact ⟨rfl, rfl, rfl⟩
    have hlife : SameLife w ((w.threadKill k).setWorker i p (.dying (.killer q) e)) r := by
      cases r with
      | stage m => exact ⟨rfl, Iff.rfl, fun _ h => by cases h⟩
      | killer q' =>
        refine ⟨?_, ?_, fun q'' h => ?_⟩
        · show ((w.threadKill k).pools q').kill.calls = (w.pools q').kill.calls
          rcases hkill q' with h | h <;> rw [h]
          exact (hsig _).1
        · show ((w.threadKill k).pools q').kill.closes = true ↔ (w.pools q').kill.closes = true
          rcases hkill q' with h | h <;> rw [h]
          rw [(hsig _).2.2]
        · show ((w.threadKill k).pools q'').kill.connects = (w.pools q'').kill.connects
          rcases hkill q'' with h | h <;> rw [h]
          exact (hsig _).2.1
    have hq : ∀ q', ((w.threadKill k).pools q').runQueue = (w.pools q').runQueue :=
      setPool_keeps Pool.runQueue (by rfl)
    exact .of_accounted (hw.congr rfl hlife rfl (fun q' => congrArg _ (hq q'))
      (sameCounts_set hx rfl (forall_places.2 ⟨rfl, rfl, rfl⟩))) hab

theorem sound_releaseEvent (ht : w.Takes (.releaseEvent i) u) : u.Sound r := by
  obtain ⟨p, s, pc, pc', hx, hpc, rfl⟩ := ht
  have hf : Worker.calls r ⟨p, pc⟩ = false ∧ Worker.popped r ⟨p, pc⟩ = false
      ∧ Worker.processes r ⟨p, pc⟩ = decide (s = r) ∧ Worker.calls r ⟨p, pc'⟩ = false
      ∧ Worker.popped r ⟨p, pc'⟩ = false ∧ Worker.processes r ⟨p, pc'⟩ = false := by
    rcases hpc with ⟨n, e, rfl, rfl, rfl⟩ | ⟨e, rfl, rfl⟩ <;> exact ⟨rfl, rfl, rfl, rfl, rfl, rfl⟩
  have hc := countP_set hx (Worker.calls r) ⟨p, pc'⟩
  have hp := countP_set hx (Worker.popped r) ⟨p, pc'⟩
  have hh := countP_set hx (Worker.processes r) ⟨p, pc'⟩
  rw [hf.1, hf.2.2.2.1] at hc
  rw [hf.2.1, hf.2.2.2.2.1] at hp
  rw [hf.2.2.1, hf.2.2.2.2.2] at hh
  have hlife : SameLife w ((w.setStage s (w.stages s).releaseEvent).setWorker i p pc') r :=
    .of_eq rfl fun _ => rfl
  have hpend : pending ((w.setStage s (w.stages s).releaseEvent).setWorker i p pc') r
      = w.pending r := pending_congr rfl hc hlife.calls
  refine .of_accounted ?_ hab
  by_cases hs : r = s
  · subst hs
    rw [decide_eq_true rfl] at hh
    have hst : ((w.setStage r (w.stages r).releaseEvent).setWorker i p pc').stages r
        = (w.stages r).releaseEvent := (setStage_stages w r _ r).trans (if_pos rfl)
    have hproc : 0 < w.processing r :=
      countP_pos_of_getElem? hx (by rw [hf.2.2.1, decide_eq_true rfl])
    refine ⟨hw.balanced.release hst rfl hpend hp hh, hw.lived.keep (by rw [hst]; rfl)
      (by rw [hst]; rfl) (fun _ h0 => ?_) hlife.closing
      (by rw [hlife.calls]; exact hw.lived.unread) hlife.connects⟩
    have := hw.balanced.ref
    omega
  · rw [decide_eq_false (Ne.symm hs)] at hh
    have hst : ((w.setStage s (w.stages s).releaseEvent).setWorker i p pc').stages r = w.stages r :=
      (setStage_stages w s _ r).trans (if_neg hs)
    exact ⟨hw.balanced.congr hst (fun _ => rfl) hpend hp hh, hw.lived.congr hst hlife⟩

end Steps

end SedaWorld

end Longda
