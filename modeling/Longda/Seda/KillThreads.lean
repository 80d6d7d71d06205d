import Longda.Seda.EventRuns
import Longda.Seda.Killing

/-!
# What `killThreads` waits for

As long as there is an exit to wait for and the wait of `killThreads` ends only by the signal of the
last thread to exit, the counter of `killThreads` is the number of exits outstanding while it waits,
it goes on when there are none, and as many threads as it was to kill are gone. With nothing to kill
no thread is there to signal, and a wait that ends for no reason is taken for the end of the exits.
-/

namespace Longda

open Lib

variable {ε : Type*}

namespace SedaWorld

variable {w u : SedaWorld ε} {s : StageId} {i n p q : ℕ} {event : ε}

/-- There is a thread to be killed, and the wait is over only with the exits or by their signal. -/
def KillMeets (w : SedaWorld ε) : SedaStep ε → Prop
  | .killThreads p threads => 0 < min threads (w.pools p).nthreads
  | .killWake p => (w.pools p).kill.waits = true → w.outstanding p = 0
  | _ => True

instance (w : SedaWorld ε) : ∀ l, Decidable (w.KillMeets l)
  | .killThreads _ _ => Nat.decLt _ _
  | .killWake p => inferInstanceAs (Decidable ((w.pools p).kill.waits = true → w.outstanding p = 0))
  | .addThreads _ _ | .addEvent _ _ | .schedule _ _ | .look _ | .wake _ | .removeEvent _
  | .handlerAddEvent _ _ _ | .handlerSchedule _ _ | .threadKill _ | .releaseEvent _ | .setPool _ _
  | .connect _ _ | .connectLock _ | .connectRead _ _ | .disconnect _ | .disconnectLock _
  | .disconnectReturn _ | .killRead _ | .killConnected _ | .killAddEvent _ _ | .killSchedule _ _
  | .killWait _ | .killReturn _ => isTrue trivial

theorem killing_start (p : ℕ) : ({} : SedaWorld ε).Killing p where
  pool := fun _ hq => by cases hq
  list := rfl
  calls := rfl
  handlers := rfl
  counts := ⟨rfl, rfl⟩

/-- No step but one of `killThreads` has a killer to schedule. -/
theorem Killing.not_killer_of_calls (hw : ∀ q, w.Killing q) (hs : s ∈ w.calls) :
    ∃ n, s = .stage n := by
  cases s with
  | stage n => exact ⟨n, rfl⟩
  | killer q => exact absurd hs (List.count_eq_zero.1 (hw q).calls)

theorem Killing.not_killer_of_handler {r : StageId} {e : ε} (hw : ∀ q, w.Killing q)
    (hx : w.workers[i]? = some ⟨p, .handling r e (some s)⟩) : ∃ n, s = .stage n := by
  cases s with
  | stage n => exact ⟨n, rfl⟩
  | killer q =>
    have := countP_pos_of_getElem? hx (f := Worker.calls (.killer q)) (decide_eq_true rfl)
    exact absurd (hw q).handlers (Nat.ne_of_gt this)

theorem addEvent_killer (w : SedaWorld ε) (n q : ℕ) (event : ε) :
    (w.addEvent (.stage n) event).stages (.killer q) = w.stages (.killer q) :=
  (addEvent_stages w _ _ _).trans (if_neg fun h => by cases h)

variable (hw : ∀ q, w.Killing q)

include hw

theorem killing_addThreads {m : ℕ} (hlock : (w.pools p).kill.locks = false) (q : ℕ) :
    { w.setPool p { w.pools p with
        nthreads := (w.pools p).nthreads + m, added := (w.pools p).added + m } with
      workers := w.workers ++ List.replicate m ⟨p, .looking⟩ : SedaWorld ε }.Killing q := by
  have hwork : SameCounts w { w.setPool p { w.pools p with
        nthreads := (w.pools p).nthreads + m, added := (w.pools p).added + m } with
      workers := w.workers ++ List.replicate m ⟨p, .looking⟩ : SedaWorld ε } (roles q) := by
    refine sameCounts_append rfl (forall_roles.2 ⟨?_, ?_, ?_⟩) <;> exact Bool.false_ne_true
  by_cases hq : q = p
  · subst hq
    have hpool : (w.setPool q { w.pools q with
        nthreads := (w.pools q).nthreads + m, added := (w.pools q).added + m }).pools q
        = { w.pools q with
            nthreads := (w.pools q).nthreads + m, added := (w.pools q).added + m } :=
      Function.update_self _ _ _
    refine (hw q).congr rfl rfl (by dsimp only; rw [hpool]) (by dsimp only; rw [hpool])
      (fun hcounts => ?_) rfl hwork
    dsimp only
    rw [hpool]
    unfold KillCounts at hcounts ⊢
    dsimp only
    rcases hk : (w.pools q).kill with _ | ⟨n, total⟩ | ⟨n, total⟩ | ⟨left, total⟩ | ⟨left, total⟩
      | total | total | total <;> rw [hk] at hcounts hlock
    · exact hcounts
    · cases hlock
    · cases hlock
    · cases hlock
    · cases hlock
    · obtain ⟨htk, hpos, htotal, hn⟩ := hcounts
      exact ⟨htk, hpos, htotal, by omega⟩
    · obtain ⟨htk, hout, htotal, hn⟩ := hcounts
      exact ⟨htk, hout, htotal, by omega⟩
    · cases hlock
  · exact (hw q).work rfl (Function.update_of_ne hq _ _) rfl hwork

/-- A step that meets the conditions keeps the killing of each pool. -/
theorem Killing.step {l : SedaStep ε} (hacc : ∀ p, w.Accounted (.killer p)) (hm : w.KillMeets l)
    (hs : w.step l = some u) (q : ℕ) : u.Killing q := by
  obtain ⟨-, ht⟩ := takes_of_step hs
  have hne : ∀ n, StageId.killer q ≠ .stage n := fun n h => by cases h
  cases l with
  | addThreads p n =>
    obtain ⟨hlock, rfl⟩ := ht
    exact killing_addThreads hw hlock q
  | addEvent n event =>
    dsimp only [Takes] at ht
    subst ht
    refine (hw q).work (addEvent_killer w n q event) rfl ?_ (.refl rfl _)
    dsimp only
    split_ifs
    · exact List.count_cons_of_ne (Ne.symm (hne n))
    · rfl
  | schedule s woken =>
    obtain ⟨hmem, h⟩ := ht
    obtain ⟨n, rfl⟩ := Killing.not_killer_of_calls hw hmem
    refine .schedule h ((hw q).work rfl rfl ?_ (.refl rfl _))
    exact List.count_erase_of_ne (hne n)
  | look i =>
    obtain ⟨p, hx, rfl⟩ := ht
    exact killing_look hw hacc hx (.inl rfl) q
  | wake i =>
    obtain ⟨p, pc, hx, hpc, rfl⟩ := ht
    have hv : ∀ q, (w.setPool p { w.pools p with nIdles := (w.pools p).nIdles - 1 }).Killing q :=
      fun q => (hw q).setIdles p _
    exact killing_look hv (fun p => accounted_setPool (hacc p) rfl rfl) hx (.inr hpc) q
  | removeEvent i =>
    obtain ⟨p, s, hx, ⟨-, rfl⟩ | ⟨event, st, hr, rfl⟩⟩ := ht
    · exact (hw q).abort _
    · exact killing_removeEvent (hw q) hx hr
  | handlerAddEvent i n event =>
    obtain ⟨p, m, e, hx, rfl⟩ := ht
    refine (hw q).work (addEvent_killer w n q event) rfl rfl
      (sameCounts_set hx rfl (forall_roles.2 ⟨?_, rfl, rfl⟩))
    split_ifs
    · exact decide_eq_false (Ne.symm (hne n))
    · rfl
  | handlerSchedule i woken =>
    obtain ⟨p, r, e, s, hx, h⟩ := ht
    obtain ⟨n, rfl⟩ := Killing.not_killer_of_handler hw hx
    refine .schedule h ((hw q).work rfl rfl rfl
      (sameCounts_set hx rfl (forall_roles.2 ⟨?_, rfl, ?_⟩)))
    · exact (decide_eq_false (Ne.symm (hne n))).symm
    · cases r <;> rfl
  | threadKill i =>
    obtain ⟨p, m, e, hx, ⟨-, rfl⟩ | ⟨r, hr, hlock, rfl⟩⟩ := ht
    · exact (hw q).abort _
    · obtain rfl := (hw m).pool r hr
      exact killing_threadKill (hw q) hx hlock
  | releaseEvent i =>
    obtain ⟨p, s, pc, pc', hx, hpc, rfl⟩ := ht
    have hst : ∀ {P : SedaStage ε → Prop}, P (w.stages (.killer q)).releaseEvent →
        P (w.stages (.killer q)) →
        P ((w.setStage s (w.stages s).releaseEvent).stages (.killer q)) := by
      intro P h h'
      rw [setStage_stages]
      split_ifs with heq
      · rw [← heq]
        exact h
      · exact h'
    refine (hw q).congr (hst (P := fun st => st.thPool = _) rfl rfl)
      (hst (P := fun st => st.eventList = _) rfl rfl) rfl rfl id rfl
      (sameCounts_set hx rfl (forall_roles.2 ?_))
    rcases hpc with ⟨n, e, rfl, rfl, rfl⟩ | ⟨e, rfl, rfl⟩ <;> exact ⟨rfl, rfl, rfl⟩
  | setPool n p =>
    obtain ⟨-, rfl⟩ | ⟨-, rfl⟩ := ht
    · exact (hw q).abort _
    · exact (hw q).of_onlyStage (onlyStage_setStage w _ _) (hne n) rfl
  | connect n success =>
    subst ht
    unfold connect
    split_ifs
    · exact (hw q).abort _
    · exact (hw q).of_onlyStage (onlyStage_setLife w n _) (hne n) rfl
    · exact hw q
  | connectLock n =>
    obtain ⟨-, rfl⟩ := ht
    exact (hw q).of_onlyStage ((onlyStage_setStage w _ _).trans (onlyStage_setLife _ n _)) (hne n)
      rfl
  | connectRead n backlog =>
    obtain ⟨-, rfl⟩ := ht
    refine (hw q).work rfl rfl ?_ (.refl rfl _)
    unfold connectRead
    dsimp only
    split_ifs
    · rw [List.count_append, List.count_replicate, if_neg (by simp), Nat.zero_add]
    · rfl
  | disconnect n =>
    subst ht
    unfold disconnect
    split_ifs
    · exact (hw q).of_onlyStage (onlyStage_setLife w n _) (hne n) rfl
    · exact (hw q).abort _
  | disconnectLock n =>
    obtain ⟨-, rfl⟩ := ht
    exact (hw q).of_onlyStage ((onlyStage_setStage w _ _).trans (onlyStage_setLife _ n _)) (hne n)
      rfl
  | disconnectReturn n =>
    obtain ⟨-, -, rfl⟩ := ht
    exact (hw q).of_onlyStage ((onlyStage_setStage w _ _).trans (onlyStage_setLife _ n _)) (hne n)
      rfl
  | killThreads p threads =>
    obtain ⟨hk, rfl⟩ := ht
    exact killing_killThreads (hw q) hacc hk hm
  | killRead p =>
    obtain ⟨m, total, hk, rfl⟩ := ht
    exact killing_killRead hw hk q
  | killConnected p =>
    obtain ⟨total, hk, rfl⟩ := ht
    exact killing_killConnected (hw q) hk
  | killAddEvent p event =>
    obtain ⟨left, total, hk, rfl⟩ := ht
    exact killing_killAddEvent (hw q) hacc hk
  | killSchedule p woken =>
    obtain ⟨k, hk, h⟩ := ht
    exact killing_killSchedule (hw q) (hw p) hacc hk h
  | killWait p =>
    obtain ⟨total, hk, rfl⟩ := ht
    exact killing_killWait (hw q) hk
  | killWake p =>
    obtain ⟨total, hk, rfl⟩ := ht
    exact killing_killWake (hw q) hk hm
  | killReturn p =>
    obtain ⟨total, hk, -, rfl⟩ := ht
    exact killing_killReturn (hw q) hk

omit hw

/-- `killThreads` waits for the exits it asked for, as long as they take. -/
structure KillsWaited (w : SedaWorld ε) (p : ℕ) : Prop where
  blocked : (w.pools p).kill.waits = true → 0 < w.outstanding p
  past : ∀ total, (w.pools p).kill = .disconnecting total → w.outstanding p = 0
  /-- Nothing but `addThreads` has made up for the threads killed. -/
  returned : ∀ u, w.step (.killReturn p) = some u →
    (u.pools p).nthreads + min (w.pools p).asked (w.pools p).before
      = (w.pools p).before + (w.pools p).added

theorem Killing.killsWaited (hw : w.Killing p) : w.KillsWaited p := by
  have hcounts := hw.counts
  unfold KillCounts at hcounts
  constructor
  · intro hk
    unfold KillPc.waits at hk
    split at hk
    · rename_i total hk'
      rw [hk'] at hcounts
      exact hcounts.2.1
    · cases hk
  · intro total hk
    rw [hk] at hcounts
    exact hcounts.2.1
  · intro u hs
    obtain ⟨-, total, hk, -, rfl⟩ := takes_of_step hs
    rw [hk] at hcounts
    obtain ⟨-, -, htotal, hn⟩ := hcounts
    have hpool : ((w.disconnected (.killer p)).setKill p .none).pools p
        = { w.pools p with kill := .none } := Function.update_self _ _ _
    rw [hpool, ← htotal]
    exact hn

/-- In every run where there is a thread to be killed and no wait is over for no reason. -/
theorem run_killsWaited {ls : List (SedaStep ε)} (hr : (seda ε).run {} ls = some w)
    (hm : (seda ε).Meets KillMeets {} ls) (p : ℕ) : w.KillsWaited p := by
  have hstep : ∀ (w : SedaWorld ε) (l : SedaStep ε) (u : SedaWorld ε),
      ((∀ q, w.Sound (.killer q)) ∧ ∀ q, w.Killing q) → w.KillMeets l → w.step l = some u →
      ((∀ q, u.Sound (.killer q)) ∧ ∀ q, u.Killing q) := fun w l u hw hm hs =>
    ⟨Sound.killer_step hw.1 hs, Killing.step hw.2 (fun q => (hw.1 q).accounted) hm hs⟩
  exact (((seda ε).run_inv hstep ls ⟨fun q => sound_start _, killing_start⟩ hm
    hr).2 p).killsWaited

/-- One of two threads is killed, and `killThreads` is about to return. -/
theorem run_killsWaited_one_thread : ∃ w, (seda ℕ).run {}
      [.addThreads 0 2, .look 0, .look 1, .killThreads 0 1, .killRead 0, .killConnected 0,
        .killAddEvent 0 7, .killSchedule 0 1, .killWait 0, .wake 1, .removeEvent 1, .threadKill 1,
        .killWake 0, .releaseEvent 1] = some w
    ∧ (w.step (.killReturn 0)).isSome = true ∧ (w.pools 0).nthreads = 1 ∧ w.KillsWaited 0 :=
  ⟨_, rfl, rfl, rfl, @run_killsWaited ℕ _ [.addThreads 0 2, .look 0, .look 1, .killThreads 0 1,
    .killRead 0, .killConnected 0, .killAddEvent 0 7, .killSchedule 0 1, .killWait 0, .wake 1,
    .removeEvent 1, .threadKill 1, .killWake 0, .releaseEvent 1] rfl (by decide) 0⟩

/-- With no thread in the pool `killThreads` is blocked with no exit to come, and a wait that ends
for no reason lets it pass with one to come. -/
theorem not_killsWaited :
    (∃ w, (seda ℕ).run {} [.killThreads 0 0, .killRead 0, .killConnected 0, .killWait 0] = some w
      ∧ (w.pools 0).kill = .waiting 0 ∧ w.outstanding 0 = 0 ∧ ¬w.KillsWaited 0)
    ∧ ∃ w, (seda ℕ).run {} [.addThreads 0 1, .killThreads 0 1, .killRead 0, .killConnected 0,
        .killAddEvent 0 7, .killSchedule 0 0, .killWait 0, .killWake 0] = some w
      ∧ (w.pools 0).kill = .disconnecting 1 ∧ w.outstanding 0 = 1 ∧ ¬w.KillsWaited 0 :=
  ⟨⟨_, rfl, rfl, rfl, fun h => absurd (h.blocked rfl) (by decide)⟩,
    ⟨_, rfl, rfl, rfl, fun h => absurd (h.past 1 rfl) (by decide)⟩⟩

end SedaWorld

end Longda
