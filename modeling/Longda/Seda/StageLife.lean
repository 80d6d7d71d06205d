import Longda.Seda.EventSteps

/-!
# Connecting and disconnecting a stage

A stage is given a pool and connected while nothing is under way for it, and a `disconnect` waits
until nothing is any more. These steps keep the accounts of the stage as long as they are `Orderly`:
a `connect` or `setPool` finds what it asserted, and no `disconnect` takes the lock between the
unlock of a `connect` and its reading of `connected`. The killer of a pool is connected and
disconnected by `killThreads` alone, and always so.
-/

namespace Longda

open Lib

variable {ε : Type*}

namespace SedaWorld

variable {w u v : SedaWorld ε} {s r : StageId} {i p q n : ℕ} {pc : WorkerPc ε} {event : ε}
  {woken : ℕ}

/-- The other stages stay as they are. -/
structure OnlyStage (w u : SedaWorld ε) (s : StageId) : Prop where
  stages : ∀ r ≠ s, u.stages r = w.stages r
  life : ∀ r ≠ s, SameLife w u r
  calls : ∀ r ≠ s, u.calls.count r = w.calls.count r
  workers : u.workers = w.workers
  queues : ∀ q, (u.pools q).runQueue = (w.pools q).runQueue

theorem OnlyStage.accounted (h : OnlyStage w u s) (hw : w.Accounted r) (hs : r ≠ s) :
    u.Accounted r :=
  hw.congr (h.stages r hs) (h.life r hs) (h.calls r hs) (fun q => by rw [h.queues])
    (.refl h.workers _)

theorem onlyStage_setStage (w : SedaWorld ε) (s : StageId) (st : SedaStage ε) :
    OnlyStage w (w.setStage s st) s where
  stages := fun r hr => (setStage_stages w s st r).trans (if_neg hr)
  life := fun _ _ => .of_eq rfl fun _ => rfl
  calls := fun _ _ => rfl
  workers := rfl
  queues := fun _ => rfl

theorem onlyStage_setLife (w : SedaWorld ε) (n : ℕ) (l : Lifecycle) :
    OnlyStage w (w.setLife n l) (.stage n) where
  stages := fun _ _ => rfl
  life := fun r hr => by
    cases r with
    | stage m =>
      have hm : (w.setLife n l).life m = w.life m :=
        (setLife_life w n l m).trans (if_neg fun h => hr (congrArg _ h))
      exact ⟨congrArg (·.backlogs.sum) hm, iff_of_eq (congrArg (0 < ·.waits) hm),
        fun _ h => by cases h⟩
    | killer p => exact ⟨rfl, Iff.rfl, fun _ _ => rfl⟩
  calls := fun _ _ => rfl
  workers := rfl
  queues := fun _ => rfl

/-- A pool goes on with the killing of its threads. -/
theorem onlyStage_setPool {pool : Pool} (hq : pool.runQueue = (w.pools p).runQueue) :
    OnlyStage w (w.setPool p pool) (.killer p) where
  stages := fun _ _ => rfl
  life := fun r hr => by
    cases r with
    | stage m => exact ⟨rfl, Iff.rfl, fun _ h => by cases h⟩
    | killer q =>
      have hp : (w.setPool p pool).pools q = w.pools q :=
        (setPool_pools w p pool q).trans (if_neg fun h => hr (congrArg _ h))
      refine ⟨congrArg (·.kill.calls) hp,
        iff_of_eq (congrArg (fun pool : Pool => pool.kill.closes = true) hp), fun q' h => ?_⟩
      cases h
      rw [hp]
  calls := fun _ _ => rfl
  workers := rfl
  queues := setPool_keeps Pool.runQueue hq

theorem OnlyStage.trans (h : OnlyStage w v s) (h' : OnlyStage v u s) : OnlyStage w u s where
  stages := fun r hr => (h'.stages r hr).trans (h.stages r hr)
  life := fun r hr =>
    ⟨(h'.life r hr).calls.trans (h.life r hr).calls,
      (h'.life r hr).closing.trans (h.life r hr).closing,
      fun p hp => ((h'.life r hr).connects p hp).trans ((h.life r hr).connects p hp)⟩
  calls := fun r hr => (h'.calls r hr).trans (h.calls r hr)
  workers := h'.workers.trans h.workers
  queues := fun q => (h'.queues q).trans (h.queues q)

/-- A stage with nothing under way turns to another pool or to another life. -/
theorem accounted_turn (hw : w.Accounted s) (h0 : (w.stages s).eventRef = 0)
    (honly : OnlyStage w u s) (hcalls : u.calls = w.calls)
    (hlist : (u.stages s).eventList = (w.stages s).eventList)
    (hentered : (u.stages s).entered = (w.stages s).entered)
    (hremoved : (u.stages s).removed = (w.stages s).removed)
    (hown : (u.stages s).eventRef = u.ownCalls s)
    (hle : u.ownCalls s ≤ (w.stages s).eventList.length) (hlived : u.Lived s) :
    u.Accounted s := by
  obtain ⟨-, hpend, -, -⟩ := hw.balanced.idle h0
  have hpend' : u.pending s = u.ownCalls s := by
    unfold pending at hpend ⊢
    rw [hcalls, honly.workers]
    omega
  exact ⟨hw.balanced.turn h0 hlist hentered hremoved honly.queues (by rw [hpend', hown])
    (by rw [hpend']; exact hle) (.refl honly.workers _), hlived⟩

/-- The stage is cut off, and the events under way come to their end. -/
theorem accounted_close (hw : w.Accounted s) (honly : OnlyStage w u s)
    (hcalls : u.calls = w.calls) (hst : u.stages s = { w.stages s with connected := false })
    (hown : u.ownCalls s = w.ownCalls s) (h0 : w.ownCalls s = 0) (hclosing : u.Closing s)
    (hfits : ∀ p, s = .killer p → (u.pools p).kill.connects = false) : u.Accounted s := by
  have hb := hw.balanced
  have htok : u.tokens s = w.tokens s :=
    tokens_congr (by rw [hst]) fun p => by rw [honly.queues]
  have hwork : SameCounts w u (places s) := .refl honly.workers _
  have hpend : u.pending s = w.pending s :=
    pending_congr (by rw [hcalls]) hwork.calls hown
  refine ⟨⟨?_, ?_, ?_, ?_⟩, ⟨?_, fun _ h => absurd hclosing h, ?_, ?_, ?_⟩⟩
  · rw [hst]
    intro p hp
    rw [honly.queues]
    exact hb.elsewhere p hp
  · rw [hst, htok, hpend, hwork.popped, hwork.processing]
    exact hb.ref
  · rw [hst, htok, hpend, hwork.popped]
    exact hb.len
  · rw [hst]
    exact hb.order
  · rw [hst]
    exact fun hnone => ⟨rfl, (hw.lived.pooled hnone).2⟩
  · rw [hst]
    exact fun _ => rfl
  · rw [hown, h0]
    exact fun h => absurd h (Nat.lt_irrefl 0)
  · intro p hp
    rw [hst, hfits p hp]

/-- What gives the stage a pool, connects it or disconnects it finds it as it was asserted to be,
and no `disconnect` comes between the unlock of a `connect` and its schedule calls. -/
def Orderly (w : SedaWorld ε) (r : StageId) : SedaStep ε → Prop
  | .setPool n _ => r = .stage n → (w.life n).waits = 0
  | .connectLock n => r = .stage n →
      (w.stages r).connected = false ∧ (w.stages r).thPool ≠ none ∧ (w.life n).waits = 0
  | .disconnectLock n => r = .stage n → (w.life n).backlogs.sum = 0
  | _ => True

instance (w : SedaWorld ε) (r : StageId) : ∀ l, Decidable (w.Orderly r l)
  | .setPool n _ => inferInstanceAs (Decidable (r = .stage n → (w.life n).waits = 0))
  | .connectLock n => inferInstanceAs (Decidable (r = .stage n →
      (w.stages r).connected = false ∧ (w.stages r).thPool ≠ none ∧ (w.life n).waits = 0))
  | .disconnectLock n => inferInstanceAs (Decidable (r = .stage n → (w.life n).backlogs.sum = 0))
  | .addThreads _ _ | .addEvent _ _ | .schedule _ _ | .look _ | .wake _ | .removeEvent _
  | .handlerAddEvent _ _ _ | .handlerSchedule _ _ | .threadKill _ | .releaseEvent _
  | .connect _ _ | .connectRead _ _ | .disconnect _ | .disconnectReturn _ | .killThreads _ _
  | .killRead _ | .killConnected _ | .killAddEvent _ _ | .killSchedule _ _ | .killWait _
  | .killWake _ | .killReturn _ => isTrue trivial

section Steps

variable (hw : w.Accounted r) (hab : w.aborted = none)

include hw hab

/-- A step of another stage that fails no assertion. -/
theorem Sound.of_onlyStage (h : OnlyStage w u s) (hs : r ≠ s) (ha : u.aborted = w.aborted) :
    u.Sound r :=
  .of_accounted (h.accounted hw hs) (ha.trans hab)

theorem sound_setPool (ht : w.Takes (.setPool n p) u) (hm : w.Orderly r (.setPool n p)) :
    u.Sound r := by
  obtain ⟨-, rfl⟩ | ⟨hc, rfl⟩ := ht
  · exact .abort hw fun _ => ⟨n, rfl⟩
  · by_cases hr : r = .stage n
    · subst hr
      have hl := hw.lived
      have hopen : ¬w.Closing (.stage n) := not_closing_stage (hm rfl)
      have h0 := hl.quiet hc hopen
      have hst : (w.setStage (.stage n) { w.stages (.stage n) with thPool := some p }).stages
          (.stage n) = { w.stages (.stage n) with thPool := some p } :=
        (setStage_stages w _ _ _).trans (if_pos rfl)
      have hown : w.ownCalls (.stage n) = 0 := by
        obtain ⟨-, hpend, -, -⟩ := hw.balanced.idle h0
        unfold pending at hpend
        omega
      refine .of_accounted (accounted_turn hw h0 (onlyStage_setStage w _ _) rfl (by rw [hst])
        (by rw [hst]) (by rw [hst]) ?_ ?_ ⟨?_, ?_, ?_, ?_, ?_⟩) hab
      · rw [hst]
        show (w.stages (.stage n)).eventRef = ↑(w.ownCalls (.stage n))
        rw [h0, hown]
        rfl
      · exact Nat.le_trans (Nat.le_of_eq hown) (Nat.zero_le _)
      · rw [hst]
        intro hnone
        cases hnone
      · rw [hst]
        exact fun _ _ => h0
      · rw [hst]
        exact hl.closing
      · rw [hst]
        exact hl.unread
      · intro q hq
        cases hq
    · exact .of_onlyStage hw hab (onlyStage_setStage w _ _) hr rfl

theorem sound_connect {success : Bool} (ht : w.Takes (.connect n success) u) : u.Sound r := by
  dsimp only [Takes] at ht
  subst ht
  have hlife : SameLife w
      (w.setLife n { w.life n with connects := (w.life n).connects + 1 }) r := by
    by_cases hr : r = .stage n
    · subst hr
      have hself := (setLife_life w n { w.life n with
        connects := (w.life n).connects + 1 } n).trans (if_pos rfl)
      exact ⟨congrArg (·.backlogs.sum) hself, iff_of_eq (congrArg (0 < ·.waits) hself),
        fun _ h => by cases h⟩
    · exact (onlyStage_setLife w n _).life r hr
  unfold connect
  split_ifs
  · exact .abort hw fun _ => ⟨n, rfl⟩
  · exact .of_accounted (hw.congr rfl hlife rfl (fun _ => rfl) (.refl rfl _)) hab
  · exact .of_accounted hw hab

omit hab in
/-- The state in which `connect` unlocks, for a stage that had nothing under way. -/
theorem accounted_connectLock (honly : OnlyStage w u r) (hcalls : u.calls = w.calls)
    (h0 : (w.stages r).eventRef = 0) {st : SedaStage ε} (hst : u.stages r = st.connect)
    (hlist : st.eventList = (w.stages r).eventList) (hentered : st.entered = (w.stages r).entered)
    (hremoved : st.removed = (w.stages r).removed) (hpool : st.thPool ≠ none)
    (hown : u.ownCalls r = st.backlog) (hopen : ¬u.Closing r)
    (hfits : ∀ p, r = .killer p → (u.pools p).kill.connects = true) : u.Accounted r := by
  refine accounted_turn hw h0 honly hcalls (by rw [hst]; exact hlist)
    (by rw [hst]; exact hentered) (by rw [hst]; exact hremoved) ?_ ?_ ⟨?_, ?_, ?_, ?_, ?_⟩
  · rw [hst, hown]
    rfl
  · rw [hown, ← hlist]
    exact Nat.mod_le _ _
  · rw [hst]
    exact fun hnone => absurd hnone hpool
  · rw [hst]
    intro hc
    cases hc
  · exact fun h => absurd h hopen
  · rw [hst]
    exact fun _ => rfl
  · intro p hp
    rw [hst, hfits p hp]
    rfl

theorem sound_connectLock (ht : w.Takes (.connectLock n) u) (hm : w.Orderly r (.connectLock n)) :
    u.Sound r := by
  obtain ⟨-, rfl⟩ := ht
  have honly : OnlyStage w (w.connectLock n) (.stage n) :=
    (onlyStage_setStage w _ _).trans (onlyStage_setLife _ n _)
  by_cases hr : r = .stage n
  · subst hr
    obtain ⟨hc, hpool, hwaits⟩ := hm rfl
    have hopen : ¬w.Closing (.stage n) := not_closing_stage hwaits
    have h0 := hw.lived.quiet hc hopen
    have hown : (w.life n).backlogs.sum = 0 := by
      obtain ⟨-, hpend, -, -⟩ := hw.balanced.idle h0
      exact Nat.eq_zero_of_add_eq_zero_left hpend
    have hlife : (w.connectLock n).life n = { w.life n with
        connects := (w.life n).connects - 1
        backlogs := (w.stages (.stage n)).backlog :: (w.life n).backlogs } :=
      (setLife_life _ n _ n).trans (if_pos rfl)
    refine .of_accounted (accounted_connectLock hw honly rfl h0
      ((setStage_stages w _ _ _).trans (if_pos rfl)) rfl rfl rfl hpool ?_ ?_ fun _ h => by cases h)
      hab
    · show ((w.connectLock n).life n).backlogs.sum = _
      rw [hlife, List.sum_cons, hown, Nat.add_zero]
    · show ¬0 < ((w.connectLock n).life n).waits
      rw [hlife]
      exact hopen
  · exact .of_onlyStage hw hab honly hr rfl

theorem sound_connectRead {backlog : ℕ} (ht : w.Takes (.connectRead n backlog) u) :
    u.Sound r := by
  obtain ⟨hmem, rfl⟩ := ht
  by_cases hr : r = .stage n
  · subst hr
    have hlife : (w.connectRead n backlog).life n = { w.life n with
        backlogs := (w.life n).backlogs.erase backlog } :=
      (setLife_life w n _ n).trans (if_pos rfl)
    have hsum : backlog + ((w.life n).backlogs.erase backlog).sum = (w.life n).backlogs.sum := by
      rw [(List.perm_cons_erase hmem).sum_nat, List.sum_cons]
    have hown : (w.connectRead n backlog).ownCalls (.stage n)
        = ((w.life n).backlogs.erase backlog).sum := congrArg (·.backlogs.sum) hlife
    have hun : 0 < (w.life n).backlogs.sum → (w.stages (.stage n)).connected = true :=
      hw.lived.unread
    -- what it finds set it schedules, and it has nothing to schedule where it finds it clear
    have hcalls : (w.connectRead n backlog).calls.count (.stage n)
        = w.calls.count (.stage n) + backlog := by
      show (if (w.stages (.stage n)).connected then List.replicate backlog (.stage n) ++ w.calls
        else w.calls).count _ = _
      split_ifs with hc
      · rw [List.count_append, List.count_replicate_self, Nat.add_comm]
      · have : ¬0 < (w.life n).backlogs.sum := fun h => hc (hun h)
        omega
    have hpend : (w.connectRead n backlog).pending (.stage n) = w.pending (.stage n) := by
      unfold pending
      rw [hown, hcalls]
      show _ + w.workers.countP _ + _ = _ + _ + (w.life n).backlogs.sum
      omega
    refine .of_accounted ⟨hw.balanced.congr rfl (fun _ => rfl) hpend rfl rfl,
      hw.lived.keep rfl rfl (fun _ h => h) (iff_of_eq (congrArg (0 < ·.waits) hlife)) (fun h => ?_)
      fun _ h => by cases h⟩ hab
    rw [hown] at h
    exact hun (by omega)
  · have hlife := (onlyStage_setLife w n { w.life n with
      backlogs := (w.life n).backlogs.erase backlog }).life r hr
    refine .of_accounted (hw.congr rfl ⟨hlife.calls, hlife.closing, hlife.connects⟩ ?_
      (fun _ => rfl) (.refl rfl _)) hab
    show (if (w.stages (.stage n)).connected then List.replicate backlog (.stage n) ++ w.calls
      else w.calls).count r = _
    split_ifs
    · rw [List.count_append, List.count_replicate, if_neg (by simpa using Ne.symm hr), Nat.zero_add]
    · rfl

theorem sound_disconnect (ht : w.Takes (.disconnect n) u) : u.Sound r := by
  dsimp only [Takes] at ht
  subst ht
  have hlife : SameLife w
      (w.setLife n { w.life n with disconnects := (w.life n).disconnects + 1 }) r := by
    by_cases hr : r = .stage n
    · subst hr
      have hself := (setLife_life w n { w.life n with
        disconnects := (w.life n).disconnects + 1 } n).trans (if_pos rfl)
      exact ⟨congrArg (·.backlogs.sum) hself, iff_of_eq (congrArg (0 < ·.waits) hself),
        fun _ h => by cases h⟩
    · exact (onlyStage_setLife w n _).life r hr
  unfold disconnect
  split_ifs
  · exact .of_accounted (hw.congr rfl hlife rfl (fun _ => rfl) (.refl rfl _)) hab
  · exact .abort hw fun _ => ⟨n, rfl⟩

theorem sound_disconnectLock (ht : w.Takes (.disconnectLock n) u)
    (hm : w.Orderly r (.disconnectLock n)) : u.Sound r := by
  obtain ⟨-, rfl⟩ := ht
  have honly : OnlyStage w (w.disconnectLock n) (.stage n) :=
    (onlyStage_setStage w _ _).trans (onlyStage_setLife _ n _)
  by_cases hr : r = .stage n
  · subst hr
    have hlife : (w.disconnectLock n).life n = { w.life n with
        disconnects := (w.life n).disconnects - 1
        waits := (w.life n).waits + 1 } := (setLife_life _ n _ n).trans (if_pos rfl)
    refine .of_accounted (accounted_close hw honly rfl
      ((setStage_stages w _ _ _).trans (if_pos rfl)) (congrArg (·.backlogs.sum) hlife) (hm rfl) ?_
      fun _ h => by cases h) hab
    show 0 < ((w.disconnectLock n).life n).waits
    rw [hlife]
    exact Nat.succ_pos _
  · exact .of_onlyStage hw hab honly hr rfl

omit hab in
/-- The end of `disconnect`, with the reference count at zero. -/
theorem accounted_disconnected (hclosing : w.Closing r) (h0 : (w.stages r).eventRef = 0)
    (honly : OnlyStage w u r) (hcalls : u.calls = w.calls)
    (hst : u.stages r = { w.stages r with thPool := none }) (hown : u.ownCalls r = w.ownCalls r)
    (hfits : ∀ p, r = .killer p → (u.pools p).kill.connects = false) : u.Accounted r := by
  have hc := hw.lived.closing hclosing
  have hown' : w.ownCalls r = 0 := by
    obtain ⟨-, hpend, -, -⟩ := hw.balanced.idle h0
    unfold pending at hpend
    omega
  refine accounted_turn hw h0 honly hcalls (by rw [hst]) (by rw [hst]) (by rw [hst]) ?_ ?_
    ⟨?_, ?_, ?_, ?_, ?_⟩
  · rw [hst, hown, hown']
    exact h0
  · rw [hown, hown']
    exact Nat.zero_le _
  · rw [hst]
    exact fun _ => ⟨hc, h0⟩
  · rw [hst]
    exact fun _ _ => h0
  · rw [hst]
    exact fun _ => hc
  · rw [hown, hown']
    exact fun h => absurd h (Nat.lt_irrefl 0)
  · intro p hp
    rw [hst, hfits p hp]
    exact hc

theorem sound_disconnectReturn (ht : w.Takes (.disconnectReturn n) u) : u.Sound r := by
  obtain ⟨hwaits, h0, rfl⟩ := ht
  have honly : OnlyStage w ((w.disconnected (.stage n)).setLife n { w.life n with
      waits := (w.life n).waits - 1 }) (.stage n) :=
    (onlyStage_setStage w _ _).trans (onlyStage_setLife _ n _)
  by_cases hr : r = .stage n
  · subst hr
    have hlife : ((w.disconnected (.stage n)).setLife n { w.life n with
        waits := (w.life n).waits - 1 }).life n = { w.life n with
          waits := (w.life n).waits - 1 } := (setLife_life _ n _ n).trans (if_pos rfl)
    exact .of_accounted (accounted_disconnected hw hwaits h0 honly rfl
      ((setStage_stages w _ _ _).trans (if_pos rfl)) (congrArg (·.backlogs.sum) hlife)
      fun _ h => by cases h) hab
  · exact .of_onlyStage hw hab honly hr rfl

/-- `killThreads` goes on in a place where it is the same to its stage. -/
theorem sound_setKill {k : KillPc} (hcalls : k.calls = (w.pools p).kill.calls)
    (hconn : k.connects = (w.pools p).kill.connects) (hcl : k.closes = (w.pools p).kill.closes) :
    (w.setKill p k).Sound r := by
  have hlife : SameLife w (w.setKill p k) r := by
    cases r with
    | stage n => exact ⟨rfl, Iff.rfl, fun _ h => by cases h⟩
    | killer q =>
      have hk : ∀ {β : Type} (f : KillPc → β), f k = f (w.pools p).kill →
          ∀ q, f ((w.setKill p k).pools q).kill = f (w.pools q).kill := by
        intro β f hf q
        rw [setKill_kill]
        split_ifs with hq
        · rw [hf, hq]
        · rfl
      exact ⟨hk KillPc.calls hcalls q, iff_of_eq (congrArg (· = true) (hk KillPc.closes hcl q)),
        fun q _ => hk KillPc.connects hconn q⟩
  exact .of_accounted (hw.congr rfl hlife rfl (fun q => by rw [setKill_runQueue]) (.refl rfl _)) hab

theorem sound_killThreads {threads : ℕ} (ht : w.Takes (.killThreads p threads) u) :
    u.Sound r := by
  obtain ⟨hk, rfl⟩ := ht
  have hpool : OnlyStage w (w.setPool p (startKill (w.pools p) threads
      (w.stages (.killer p)).backlog)) (.killer p) := onlyStage_setPool rfl
  unfold killThreads
  dsimp only
  split_ifs with htk hconn
  · exact .of_accounted hw hab
  · refine .abort hw fun hr => ?_
    obtain rfl : .killer p = r := hr
    have := hw.lived.kill p rfl
    rw [hk, hconn] at this
    cases this
  · by_cases hr : r = .killer p
    · subst hr
      have hkill : ((w.setPool p (startKill (w.pools p) threads
          (w.stages (.killer p)).backlog)).pools p).kill
          = .unlocked (w.stages (.killer p)).backlog (min threads (w.pools p).nthreads) := by
        rw [setPool_pools, if_pos rfl]
        rfl
      have hopen : ¬w.Closing (.killer p) := not_closing_killer (by rw [hk]; rfl)
      have h0 := hw.lived.quiet (by simpa using hconn) hopen
      refine .of_accounted (accounted_connectLock hw (hpool.trans (onlyStage_setStage _ _ _)) rfl h0
        ((setStage_stages _ _ _ _).trans (if_pos rfl)) rfl rfl rfl (by simp)
        (congrArg KillPc.calls hkill) ?_ ?_) hab
      · exact not_closing_killer (congrArg KillPc.closes hkill)
      · intro q hq
        cases hq
        show ((w.setPool p _).pools p).kill.connects = true
        rw [hkill]
        rfl
    · exact .of_onlyStage hw hab (hpool.trans (onlyStage_setStage _ _ _)) hr rfl

theorem sound_killRead (ht : w.Takes (.killRead p) u) : u.Sound r := by
  obtain ⟨m, total, hk, rfl⟩ := ht
  by_cases hr : r = .killer p
  · subst hr
    have hc : (w.stages (.killer p)).connected = true := by
      have := hw.lived.kill p rfl
      rwa [hk] at this
    rw [if_pos hc]
    exact sound_setKill hw hab (by rw [hk]; rfl) (by rw [hk]; rfl) (by rw [hk]; rfl)
  · exact .of_onlyStage hw hab (onlyStage_setPool rfl) hr rfl

theorem sound_killConnected (ht : w.Takes (.killConnected p) u) : u.Sound r := by
  obtain ⟨total, hk, rfl⟩ := ht
  exact sound_setKill hw hab (by rw [hk]; rfl) (by rw [hk]; rfl) (by rw [hk]; rfl)

theorem sound_killAddEvent (ht : w.Takes (.killAddEvent p event) u) : u.Sound r := by
  obtain ⟨left, total, hk, rfl⟩ := ht
  refine ⟨?_, addEvent_asserted (s := .killer p) (e := event) hw hab⟩
  by_cases hr : r = .killer p
  · subst hr
    have hc : (w.stages (.killer p)).connected = true := by
      have := hw.lived.kill p rfl
      rwa [hk] at this
    rw [if_pos hc]
    have hkill : (((w.addEvent (.killer p) event).setKill p (.scheduling left total)).pools p).kill
        = .scheduling left total := by
      rw [setKill_kill, if_pos rfl]
    refine accounted_addEvent hw rfl (setKill_runQueue (w.addEvent _ _) p _) ?_ (fun _ => hc)
      (fun q hq => ?_) ?_ rfl rfl
    · show KillPc.closes _ = true ↔ (w.pools p).kill.closes = true
      rw [hkill, hk]
      rfl
    · cases hq
      rw [hkill, hk]
      rfl
    · have hown : ownCalls ((w.addEvent (.killer p) event).setKill p (.scheduling left total))
          (.killer p) = w.ownCalls (.killer p) + 1 := by
        show KillPc.calls _ = (w.pools p).kill.calls + 1
        rw [hkill, hk]
        rfl
      rw [hc, decide_eq_true rfl]
      unfold pending
      rw [hown]
      show w.calls.count _ + w.workers.countP _ + _ = _
      simp only [Bool.and_self, Bool.toNat_true]
      omega
  · have hpool : OnlyStage w (w.setKill p (if (w.stages (.killer p)).connected
        then .scheduling left total else .generating left total)) (.killer p) :=
      onlyStage_setPool rfl
    refine accounted_addEvent hw rfl (setKill_runQueue (w.addEvent _ _) p _)
      (hpool.life r hr).closing ?_ (hpool.life r hr).connects ?_ rfl rfl
    · show 0 < ownCalls (w.setKill p _) r → _
      rw [(hpool.life r hr).calls]
      exact hw.lived.unread
    · rw [decide_eq_false (Ne.symm hr), Bool.false_and]
      exact pending_congr rfl rfl (hpool.life r hr).calls

theorem sound_killSchedule (ht : w.Takes (.killSchedule p woken) u) : u.Sound r := by
  obtain ⟨k, hk, h⟩ := ht
  obtain ⟨hcalls, hconn, hconn', hcl, hcl'⟩ := KillPc.called_spec hk
  have hpool : OnlyStage w (w.setKill p k) (.killer p) := onlyStage_setPool rfl
  by_cases hr : r = .killer p
  · subst hr
    have hkill : ((w.setKill p k).pools p).kill = k := by
      rw [setKill_kill, if_pos rfl]
    have hc : (w.stages (.killer p)).connected = true := (hw.lived.kill p rfl).trans hconn
    refine sound_schedule h hw hab rfl (setKill_runQueue w p _) ?_ rfl rfl
      (hw.lived.keep rfl rfl (fun _ h => h) ?_ (fun _ => hc) fun q hq => ?_)
    · rw [decide_eq_true rfl]
      show w.calls.count _ + w.workers.countP _ + ((w.setKill p k).pools p).kill.calls + 1
        = _ + _ + (w.pools p).kill.calls
      rw [hkill]
      omega
    · show ((w.setKill p k).pools p).kill.closes = true ↔ (w.pools p).kill.closes = true
      rw [hkill, hcl, hcl']
    · cases hq
      rw [hkill, hconn, hconn']
  · refine sound_schedule h hw hab rfl (setKill_runQueue w p _) ?_ rfl rfl
      (hw.lived.congr rfl (hpool.life r hr))
    rw [decide_eq_false (Ne.symm hr)]
    exact pending_congr rfl rfl (hpool.life r hr).calls

theorem sound_killWait (ht : w.Takes (.killWait p) u) : u.Sound r := by
  obtain ⟨total, hk, rfl⟩ := ht
  have hpool : ∀ {β : Type} (f : KillPc → β), f (.waiting total) = f (w.pools p).kill →
      ∀ q, f ((w.setPool p { w.pools p with
        threadsToKill := total, kill := .waiting total }).pools q).kill = f (w.pools q).kill :=
    fun f hf => setPool_keeps (fun pool => f pool.kill) hf
  have hlife : SameLife w (w.setPool p { w.pools p with
      threadsToKill := total, kill := .waiting total }) r := by
    cases r with
    | stage n => exact ⟨rfl, Iff.rfl, fun _ h => by cases h⟩
    | killer q =>
      exact ⟨hpool KillPc.calls (by rw [hk]; rfl) q,
        iff_of_eq (congrArg (· = true) (hpool KillPc.closes (by rw [hk]; rfl) q)),
        fun q _ => hpool KillPc.connects (by rw [hk]; rfl) q⟩
  exact .of_accounted (hw.congr rfl hlife rfl
    (fun q => by rw [setPool_keeps Pool.runQueue (by rfl)]) (.refl rfl _)) hab

theorem sound_killWake (ht : w.Takes (.killWake p) u) : u.Sound r := by
  obtain ⟨total, hk, rfl⟩ := ht
  have hpool : OnlyStage w (w.setKill p (.disconnecting total)) (.killer p) := onlyStage_setPool rfl
  have hcalls : (w.pools p).kill.calls = 0 ∧ (w.pools p).kill.connects = true := by
    rcases hk with hk | hk <;> rw [hk] <;> exact ⟨rfl, rfl⟩
  unfold killDisconnect
  dsimp only
  split_ifs with hc
  · by_cases hr : r = .killer p
    · subst hr
      have hkill : ((w.setKill p (.disconnecting total)).pools p).kill = .disconnecting total := by
        rw [setKill_kill, if_pos rfl]
      refine .of_accounted (accounted_close hw (hpool.trans (onlyStage_setStage _ _ _)) rfl
        ((setStage_stages _ _ _ _).trans (if_pos rfl)) ?_ hcalls.1 ?_ fun q hq => ?_) hab
      · show ((w.setKill p (.disconnecting total)).pools p).kill.calls = (w.pools p).kill.calls
        rw [hkill, hcalls.1]
        rfl
      · show ((w.setKill p (.disconnecting total)).pools p).kill.closes = true
        rw [hkill]
        rfl
      · cases hq
        show ((w.setKill p (.disconnecting total)).pools p).kill.connects = false
        rw [hkill]
        rfl
    · exact .of_onlyStage hw hab (hpool.trans (onlyStage_setStage _ _ _)) hr rfl
  · refine .abort hw fun hr => ?_
    obtain rfl : .killer p = r := hr
    have := hw.lived.kill p rfl
    rw [hcalls.2] at this
    exact absurd this hc

theorem sound_killReturn (ht : w.Takes (.killReturn p) u) : u.Sound r := by
  obtain ⟨total, hk, h0, rfl⟩ := ht
  have hpool : OnlyStage w ((w.disconnected (.killer p)).setKill p .none) (.killer p) :=
    (onlyStage_setStage w _ _).trans (onlyStage_setPool rfl)
  by_cases hr : r = .killer p
  · subst hr
    have hclosing : w.Closing (.killer p) := by
      show (w.pools p).kill.closes = true
      rw [hk]
      rfl
    have hkill : (((w.disconnected (.killer p)).setKill p .none).pools p).kill = .none := by
      rw [setKill_kill, if_pos rfl]
    refine .of_accounted (accounted_disconnected hw hclosing h0 hpool rfl
      ((setStage_stages w _ _ _).trans (if_pos rfl)) ?_ fun q hq => ?_) hab
    · show KillPc.calls _ = (w.pools p).kill.calls
      rw [hkill, hk]
      rfl
    · cases hq
      rw [hkill]
      rfl
  · exact .of_onlyStage hw hab hpool hr rfl

end Steps

end SedaWorld

end Longda
