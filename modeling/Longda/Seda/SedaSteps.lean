import Longda.Seda.Threadpool

/-!
# What a step of the stages and pools is

Every proof about the runs starts from `takes_of_step`: what a step finds, and the state it makes of
it. A schedule call is the one step that several kinds of thread take, with its own cases
(`schedule_cases`), and the invariants count the threads that are in some place, of which a step
moves at most one (`SameCounts`).
-/

namespace Longda

open Lib

variable {ε : Type*}

namespace SedaWorld

/-- What a step finds and what it makes of it. -/
def Takes (w : SedaWorld ε) : SedaStep ε → SedaWorld ε → Prop
  | .addThreads p n, u => (w.pools p).kill.locks = false
      ∧ u = { w.setPool p { w.pools p with
          nthreads := (w.pools p).nthreads + n, added := (w.pools p).added + n } with
        workers := w.workers ++ List.replicate n ⟨p, .looking⟩ }
  | .addEvent n event, u => u = { w.addEvent (.stage n) event with
      calls := if (w.stages (.stage n)).connected then .stage n :: w.calls else w.calls }
  | .schedule s woken, u =>
      s ∈ w.calls ∧ { w with calls := w.calls.erase s }.schedule s none woken = some u
  | .look i, u => ∃ p, w.workers[i]? = some ⟨p, .looking⟩ ∧ u = w.look i p
  | .wake i, u => ∃ p pc, w.workers[i]? = some ⟨p, pc⟩ ∧ (pc = .waiting ∨ pc = .signalled)
      ∧ u = (w.setPool p { w.pools p with nIdles := (w.pools p).nIdles - 1 }).look i p
  | .removeEvent i, u => ∃ p s, w.workers[i]? = some ⟨p, .popped s⟩
      ∧ ((w.stages s).removeEvent = none ∧ u = w.abort (.removeEvent s)
        ∨ ∃ event st, (w.stages s).removeEvent = some (event, st)
          ∧ u = (w.setStage s st).setWorker i p (.handling s event none))
  | .handlerAddEvent i n event, u =>
      ∃ p m e, w.workers[i]? = some ⟨p, .handling (.stage m) e none⟩
        ∧ u = (w.addEvent (.stage n) event).setWorker i p (.handling (.stage m) e
          (if (w.stages (.stage n)).connected then some (.stage n) else none))
  | .handlerSchedule i woken, u => ∃ p r e s, w.workers[i]? = some ⟨p, .handling r e (some s)⟩
      ∧ (w.setWorker i p (.handling r e none)).schedule s (some p) woken = some u
  | .threadKill i, u => ∃ p q e, w.workers[i]? = some ⟨p, .handling (.killer q) e none⟩
      ∧ ((w.stages (.killer q)).thPool = none ∧ u = w.abort (.pool (.killer q))
        ∨ ∃ r, (w.stages (.killer q)).thPool = some r ∧ (w.pools r).kill.locks = false
          ∧ u = (w.threadKill r).setWorker i p (.dying (.killer q) e))
  | .releaseEvent i, u => ∃ p s pc pc', w.workers[i]? = some ⟨p, pc⟩
      ∧ ((∃ n e, s = .stage n ∧ pc = .handling s e none ∧ pc' = .looking)
        ∨ ∃ e, pc = .dying s e ∧ pc' = .exited)
      ∧ u = (w.setStage s (w.stages s).releaseEvent).setWorker i p pc'
  | .setPool n p, u =>
      (w.stages (.stage n)).connected = true ∧ u = w.abort (.lifecycle (.stage n))
        ∨ (w.stages (.stage n)).connected = false
          ∧ u = w.setStage (.stage n) { w.stages (.stage n) with thPool := some p }
  | .connect n success, u => u = w.connect n success
  | .connectLock n, u => 0 < (w.life n).connects ∧ u = w.connectLock n
  | .connectRead n backlog, u => backlog ∈ (w.life n).backlogs ∧ u = w.connectRead n backlog
  | .disconnect n, u => u = w.disconnect n
  | .disconnectLock n, u => 0 < (w.life n).disconnects ∧ u = w.disconnectLock n
  | .disconnectReturn n, u => 0 < (w.life n).waits ∧ (w.stages (.stage n)).eventRef = 0
      ∧ u = (w.disconnected (.stage n)).setLife n { w.life n with waits := (w.life n).waits - 1 }
  | .killThreads p threads, u => (w.pools p).kill = .none ∧ u = w.killThreads p threads
  | .killRead p, u => ∃ n total, (w.pools p).kill = .unlocked n total
      ∧ u = w.setKill p (.connecting (if (w.stages (.killer p)).connected then n else 0) total)
  | .killConnected p, u => ∃ total, (w.pools p).kill = .connecting 0 total
      ∧ u = w.setKill p (.generating total total)
  | .killAddEvent p event, u => ∃ left total, (w.pools p).kill = .generating (left + 1) total
      ∧ u = (w.addEvent (.killer p) event).setKill p
        (if (w.stages (.killer p)).connected then .scheduling left total
        else .generating left total)
  | .killSchedule p woken, u => ∃ k, (w.pools p).kill.called = some k
      ∧ (w.setKill p k).schedule (.killer p) none woken = some u
  | .killWait p, u => ∃ total, (w.pools p).kill = .generating 0 total
      ∧ u = w.setPool p { w.pools p with threadsToKill := total, kill := .waiting total }
  | .killWake p, u => ∃ total,
      ((w.pools p).kill = .waiting total ∨ (w.pools p).kill = .signalled total)
      ∧ u = w.killDisconnect p total
  | .killReturn p, u => ∃ total, (w.pools p).kill = .disconnecting total
      ∧ (w.stages (.killer p)).eventRef = 0
      ∧ u = (w.disconnected (.killer p)).setKill p .none

theorem takes_of_step {w u : SedaWorld ε} {l : SedaStep ε} (hs : w.step l = some u) :
    w.aborted = none ∧ w.Takes l u := by
  unfold step at hs
  split_ifs at hs with ha
  refine ⟨by simpa using ha, ?_⟩
  cases l with
  | addThreads p n =>
    simp only [Option.ite_none_left_eq_some, Option.some.injEq] at hs
    exact ⟨by simpa using hs.1, hs.2.symm⟩
  | addEvent n event => exact (Option.some.inj hs).symm
  | schedule s woken =>
    simp only [Option.ite_none_right_eq_some] at hs
    exact hs
  | look i =>
    dsimp only at hs
    split at hs
    · rename_i p hx
      exact ⟨p, hx, (Option.some.inj hs).symm⟩
    · cases hs
  | wake i =>
    dsimp only at hs
    split at hs
    · rename_i p hx
      exact ⟨p, _, hx, .inl rfl, (Option.some.inj hs).symm⟩
    · rename_i p hx
      exact ⟨p, _, hx, .inr rfl, (Option.some.inj hs).symm⟩
    · cases hs
  | removeEvent i =>
    dsimp only at hs
    split at hs
    · rename_i p s hx
      split at hs
      · rename_i hr
        exact ⟨p, s, hx, .inl ⟨hr, (Option.some.inj hs).symm⟩⟩
      · rename_i event st hr
        exact ⟨p, s, hx, .inr ⟨event, st, hr, (Option.some.inj hs).symm⟩⟩
    · cases hs
  | handlerAddEvent i n event =>
    dsimp only at hs
    split at hs
    · rename_i p m e hx
      exact ⟨p, m, e, hx, (Option.some.inj hs).symm⟩
    · cases hs
  | handlerSchedule i woken =>
    dsimp only at hs
    split at hs
    · rename_i p r e s hx
      exact ⟨p, r, e, s, hx, hs⟩
    · cases hs
  | threadKill i =>
    dsimp only at hs
    split at hs
    · rename_i p q e hx
      split at hs
      · rename_i hp
        exact ⟨p, q, e, hx, .inl ⟨hp, (Option.some.inj hs).symm⟩⟩
      · rename_i r hp
        simp only [Option.ite_none_left_eq_some, Option.some.injEq] at hs
        exact ⟨p, q, e, hx, .inr ⟨r, hp, by simpa using hs.1, hs.2.symm⟩⟩
    · cases hs
  | releaseEvent i =>
    dsimp only at hs
    split at hs
    · rename_i p n e hx
      exact ⟨p, _, _, _, hx, .inl ⟨n, e, rfl, rfl, rfl⟩, (Option.some.inj hs).symm⟩
    · rename_i p s e hx
      exact ⟨p, s, _, _, hx, .inr ⟨e, rfl, rfl⟩, (Option.some.inj hs).symm⟩
    · cases hs
  | setPool n p =>
    dsimp only at hs
    split_ifs at hs with hc
    · exact .inl ⟨hc, (Option.some.inj hs).symm⟩
    · exact .inr ⟨by simpa using hc, (Option.some.inj hs).symm⟩
  | connect n success => exact (Option.some.inj hs).symm
  | connectLock n =>
    simp only [Option.ite_none_right_eq_some, Option.some.injEq] at hs
    exact ⟨hs.1, hs.2.symm⟩
  | connectRead n backlog =>
    simp only [Option.ite_none_right_eq_some, Option.some.injEq] at hs
    exact ⟨hs.1, hs.2.symm⟩
  | disconnect n => exact (Option.some.inj hs).symm
  | disconnectLock n =>
    simp only [Option.ite_none_right_eq_some, Option.some.injEq] at hs
    exact ⟨hs.1, hs.2.symm⟩
  | disconnectReturn n =>
    simp only [Option.ite_none_right_eq_some, Option.some.injEq] at hs
    exact ⟨hs.1.1, hs.1.2, hs.2.symm⟩
  | killThreads p threads =>
    dsimp only at hs
    split at hs
    · rename_i hk
      exact ⟨hk, (Option.some.inj hs).symm⟩
    · cases hs
  | killRead p =>
    dsimp only at hs
    split at hs
    · rename_i n total hk
      exact ⟨n, total, hk, (Option.some.inj hs).symm⟩
    · cases hs
  | killConnected p =>
    dsimp only at hs
    split at hs
    · rename_i total hk
      exact ⟨total, hk, (Option.some.inj hs).symm⟩
    · cases hs
  | killAddEvent p event =>
    dsimp only at hs
    split at hs
    · rename_i left total hk
      exact ⟨left, total, hk, (Option.some.inj hs).symm⟩
    · cases hs
  | killSchedule p woken =>
    dsimp only at hs
    split at hs
    · rename_i k hk
      exact ⟨k, hk, hs⟩
    · cases hs
  | killWait p =>
    dsimp only at hs
    split at hs
    · rename_i total hk
      exact ⟨total, hk, (Option.some.inj hs).symm⟩
    · cases hs
  | killWake p =>
    dsimp only at hs
    split at hs
    · rename_i total hk
      exact ⟨total, .inl hk, (Option.some.inj hs).symm⟩
    · rename_i total hk
      exact ⟨total, .inr hk, (Option.some.inj hs).symm⟩
    · cases hs
  | killReturn p =>
    dsimp only at hs
    split at hs
    · rename_i total hk
      simp only [Option.ite_none_right_eq_some, Option.some.injEq] at hs
      exact ⟨total, hk, hs.1, hs.2.symm⟩
    · cases hs

/-- What a schedule call finds and what it makes of it. -/
theorem schedule_cases {w u : SedaWorld ε} {s : StageId} {caller : Option ℕ} {woken : ℕ}
    (h : w.schedule s caller woken = some u) :
    ((∃ a, u = w.abort a ∧ (a = .pool s ∨ a = .schedule s))
        ∧ ((w.stages s).thPool = none ∨ (w.stages s).eventList = []))
      ∨ ∃ p ws, (w.stages s).thPool = some p
        ∧ u = { w.pushBack p s with workers := ws }
        ∧ (wakeOne (Worker.waitsIn p) Worker.signal w.workers woken = some ws
          ∨ ws = w.workers
            ∧ ((w.pools p).runQueue = [] ∧ caller = some p ∨ (w.pools p).nIdles = 0)) := by
  unfold schedule at h
  rcases hp : (w.stages s).thPool with _ | p
  · rw [hp] at h
    exact .inl ⟨⟨_, (Option.some.inj h).symm, .inl rfl⟩, .inl rfl⟩
  · simp only [hp] at h
    split_ifs at h with he
    · exact .inl ⟨⟨_, (Option.some.inj h).symm, .inr rfl⟩, .inr he⟩
    · right
      unfold push at h
      split_ifs at h with hsig
      · rw [Option.map_eq_some_iff] at h
        obtain ⟨ws, hws, rfl⟩ := h
        exact ⟨p, ws, rfl, rfl, .inl hws⟩
      · refine ⟨p, w.workers, rfl, (Option.some.inj h).symm, .inr ⟨rfl, ?_⟩⟩
        by_cases h0 : (w.pools p).nIdles = 0
        · exact .inr h0
        · have : ¬((w.pools p).runQueue ≠ [] ∨ caller ≠ some p) := fun hor =>
            hsig ⟨hor, Nat.pos_of_ne_zero h0⟩
          rw [not_or, not_not, not_not] at this
          exact .inl this

/-- As many threads are in each of the places. -/
def SameCounts (w u : SedaWorld ε) (fs : List (Worker ε → Bool)) : Prop :=
  ∀ f ∈ fs, u.workers.countP f = w.workers.countP f

theorem SameCounts.refl {w u : SedaWorld ε} (h : u.workers = w.workers)
    (fs : List (Worker ε → Bool)) : SameCounts w u fs := fun _ _ => by rw [h]

/-- A thread goes on to what is the same for the counts. -/
theorem sameCounts_set {w u : SedaWorld ε} {fs : List (Worker ε → Bool)} {i p : ℕ}
    {pc pc' : WorkerPc ε} (hx : w.workers[i]? = some ⟨p, pc⟩)
    (hu : u.workers = w.workers.set i ⟨p, pc'⟩) (hf : ∀ f ∈ fs, f ⟨p, pc'⟩ = f ⟨p, pc⟩) :
    SameCounts w u fs := by
  intro f hmem
  have := countP_set hx f ⟨p, pc'⟩
  rw [hu, ← hf f hmem] at *
  omega

/-- New threads are in none of the places. -/
theorem sameCounts_append {w u : SedaWorld ε} {fs : List (Worker ε → Bool)} {n : ℕ} {x : Worker ε}
    (hu : u.workers = w.workers ++ List.replicate n x) (hf : ∀ f ∈ fs, ¬f x) :
    SameCounts w u fs := by
  intro f hmem
  rw [hu, List.countP_append, List.countP_replicate, if_neg (hf f hmem), Nat.add_zero]

/-- A signal of the run condition is nothing to counts that leave out the idle threads. -/
theorem sameCounts_wakeOne {w u : SedaWorld ε} {fs : List (Worker ε → Bool)} {p woken : ℕ}
    {ws : List (Worker ε)} (hu : u.workers = ws)
    (h : wakeOne (Worker.waitsIn p) Worker.signal w.workers woken = some ws)
    (hf : ∀ f ∈ fs, ∀ q, f ⟨q, .signalled⟩ = f ⟨q, .waiting⟩) : SameCounts w u fs := by
  intro f hmem
  rw [hu]
  refine countP_wakeOne h fun x hx => ?_
  obtain ⟨q, pc⟩ := x
  have hpc : pc = .waiting := by
    unfold Worker.waitsIn at hx
    cases pc <;> simp at hx ⊢
  subst hpc
  exact hf f hmem q

end SedaWorld

end Longda
