import Longda.Seda.TimerStage

/-!
# What a timer may rely on

Seen from outside a timer is queued from its registration until it is fired or a cancel of it
succeeds (`Queued`), and the map of the stage holds exactly the queued timers. The nonces make the
tokens differ as long as the counter has not come round, so that a registration never meets an
entry with its token. The counter of the events has 32 bits and is right while they are enough
(`timerSafe_iff`).
-/

namespace Longda

open Lib

variable {ε : Type*}

/-- The timer has been registered under the token, and neither fired nor cancelled so far. -/
def Queued (log : List (Happening ε)) (tt : TimerToken) (timerCb : ε) : Prop :=
  .registered tt timerCb ∈ log ∧ (∀ cb now, .fired tt cb now ∉ log) ∧ .cancelled tt true ∉ log

/-- What may happen after the past. -/
def Happening.Follows : Happening ε → List (Happening ε) → Prop
  | .registered tt _, past => ∀ cb, .registered tt cb ∉ past
  | .cancelled tt success, past => success = true ↔ ∃ cb, Queued past tt cb
  | .fired tt timerCb now, past => Queued past tt timerCb ∧ tt.time ≤ now

/-- Everything in the log follows what was before it. -/
def Honoured : List (Happening ε) → Prop
  | [] => True
  | x :: past => x.Follows past ∧ Honoured past

section Log

variable {log past later ls : List (Happening ε)} {x : Happening ε} {tt tt' : TimerToken}
  {cb cb' : ε} {now : Timeval} {ds : List (TimerToken × ε)}

theorem Honoured.follows (h : Honoured log) (hl : log = later ++ x :: past) : x.Follows past := by
  subst hl
  induction later with
  | nil => exact h.1
  | cons y later ih => exact ih h.2

theorem Honoured.registered_of_fired (h : Honoured log) (hf : .fired tt cb now ∈ log) :
    ∃ cb', .registered tt cb' ∈ log := by
  obtain ⟨later, past, hl⟩ := List.append_of_mem hf
  have hq := (h.follows hl).1.1
  exact ⟨cb, by rw [hl]; simp [hq]⟩

theorem Honoured.registered_of_cancelled (h : Honoured log) (hc : .cancelled tt true ∈ log) :
    ∃ cb', .registered tt cb' ∈ log := by
  obtain ⟨later, past, hl⟩ := List.append_of_mem hc
  obtain ⟨cb, hq, -⟩ := (h.follows hl).1 rfl
  exact ⟨cb, by rw [hl]; simp [hq]⟩

theorem queued_registered (h : Honoured log) (hnew : ∀ cb, .registered tt cb ∉ log) :
    Queued (.registered tt cb :: log) tt' cb' ↔ (tt' = tt ∧ cb' = cb) ∨ Queued log tt' cb' := by
  unfold Queued
  simp only [List.mem_cons, Happening.registered.injEq, reduceCtorEq, false_or]
  constructor
  · rintro ⟨heq | hreg, hf, hc⟩
    · exact .inl heq
    · exact .inr ⟨hreg, hf, hc⟩
  · rintro (⟨rfl, rfl⟩ | ⟨hreg, hf, hc⟩)
    · refine ⟨.inl ⟨rfl, rfl⟩, fun cb now hf => ?_, fun hc => ?_⟩
      · obtain ⟨cb', hr⟩ := h.registered_of_fired hf
        exact hnew cb' hr
      · obtain ⟨cb', hr⟩ := h.registered_of_cancelled hc
        exact hnew cb' hr
    · exact ⟨.inr hreg, hf, hc⟩

theorem queued_cancelled {success : Bool} : Queued (.cancelled tt success :: log) tt' cb' ↔
    Queued log tt' cb' ∧ ¬(tt' = tt ∧ success = true) := by
  unfold Queued
  simp only [List.mem_cons, Happening.cancelled.injEq, reduceCtorEq, false_or]
  tauto

theorem queued_fired : Queued ((ds.map fun e => .fired e.1 e.2 now).reverse ++ log) tt' cb' ↔
    Queued log tt' cb' ∧ ∀ e ∈ ds, e.1 ≠ tt' := by
  unfold Queued
  simp only [List.mem_append, List.mem_reverse, List.mem_map, Happening.fired.injEq, reduceCtorEq,
    and_false, exists_false, false_or]
  constructor
  · rintro ⟨hreg, hf, hc⟩
    exact ⟨⟨hreg, fun cb n h => hf cb n (.inr h), hc⟩,
      fun e he htt => hf e.2 now (.inl ⟨e, he, htt, rfl, rfl⟩)⟩
  · rintro ⟨⟨hreg, hf, hc⟩, hne⟩
    refine ⟨hreg, ?_, hc⟩
    rintro cb n (⟨e, he, htt, -⟩ | h)
    · exact hne e he htt
    · exact hf cb n h

theorem honoured_fired (h : Honoured log) (hq : ∀ e ∈ ds, Queued log e.1 e.2)
    (hn : (ds.map Prod.fst).Nodup) (hdue : ∀ e ∈ ds, e.1.time ≤ now) :
    Honoured ((ds.map fun e => .fired e.1 e.2 now).reverse ++ log) := by
  induction ds generalizing log with
  | nil => exact h
  | cons d ds ih =>
    rw [List.map_cons, List.reverse_cons, List.append_assoc, List.singleton_append]
    rw [List.map_cons, List.nodup_cons] at hn
    have hfollows : (Happening.fired d.1 d.2 now).Follows log := ⟨hq d (by simp), hdue d (by simp)⟩
    refine ih ⟨hfollows, h⟩ (fun e he => ?_) hn.2 fun e he => hdue e (by simp [he])
    have hne : d.1 ≠ e.1 := fun heq => hn.1 (heq ▸ List.mem_map_of_mem he)
    have hlater : ∀ e' ∈ [d], e'.1 ≠ e.1 := by simpa using hne
    exact queued_fired.2 ⟨hq e (by simp [he]), hlater⟩

end Log

namespace TimerStage

variable {s t : TimerStage ε} {tt : TimerToken} {cb : ε} {first : Bool} {now : Timeval}

/-- The entries whose time has come are those before the first one whose time has not. -/
theorem due_of_le (now : Timeval) : ∀ e f : TimerToken × ε, e.1 ≤ f.1 →
    (!now.lessThan f.1.time) = true → (!now.lessThan e.1.time) = true := by
  intro e f hle
  simp only [Bool.not_eq_true', ← Bool.not_eq_true, Timeval.lessThan_iff, not_lt]
  exact (TimerToken.time_le_of_le hle).trans

theorem mem_doneEvents {e : TimerToken × ε} :
    e ∈ s.doneEvents now ↔ e ∈ s.timerQueue.entries ∧ e.1.time ≤ now := by
  unfold doneEvents
  rw [OrderedMap.takeWhile_eq_filter (due_of_le now), List.mem_filter, Bool.not_eq_true',
    ← Bool.not_eq_true, Timeval.lessThan_iff, not_lt]

theorem mem_checkTimer {e : TimerToken × ε} : e ∈ (s.checkTimer now).timerQueue.entries ↔
    e ∈ s.timerQueue.entries ∧ ¬e.1.time ≤ now := by
  show e ∈ s.timerQueue.entries.dropWhile _ ↔ _
  rw [OrderedMap.dropWhile_eq_filter (due_of_le now), List.mem_filter, Bool.not_not,
    Timeval.lessThan_iff, not_le]

theorem sorted_doneEvents : (s.doneEvents now).Pairwise (·.1 < ·.1) :=
  s.timerQueue.sorted.sublist (List.takeWhile_sublist _)

theorem registerTimer_eq_some (h : s.registerTimer tt cb = some (t, first)) :
    s.timerQueue.find? tt = none ∧ t.timerQueue = s.timerQueue.insert tt cb
      ∧ t.numEvents = s.numEvents + 1 ∧ t.shutdown = s.shutdown
      ∧ first = t.timerQueue.head?.any (·.1 = tt) := by
  unfold registerTimer at h
  split_ifs at h with hf
  simp only [Option.some.injEq, Prod.mk.injEq] at h
  obtain ⟨rfl, rfl⟩ := h
  rw [Bool.not_eq_true, Option.isSome_eq_false_iff, Option.isNone_iff_eq_none] at hf
  exact ⟨hf, rfl, rfl, rfl, rfl⟩

theorem exists_registerTimer (h : s.timerQueue.find? tt = none) (cb : ε) :
    ∃ t first, s.registerTimer tt cb = some (t, first) := by
  unfold registerTimer
  rw [h]
  exact ⟨_, _, rfl⟩

theorem mem_cancelTimer {e : TimerToken × ε} : e ∈ (s.cancelTimer tt).1.timerQueue.entries ↔
    e ∈ s.timerQueue.entries ∧ e.1 ≠ tt := by
  unfold cancelTimer
  split_ifs with hf
  · exact OrderedMap.mem_erase
  · rw [Bool.not_eq_true, Option.isSome_eq_false_iff, Option.isNone_iff_eq_none,
      OrderedMap.find?_eq_none_iff] at hf
    exact (and_iff_left_of_imp (hf e)).symm

theorem cancelTimer_success :
    (s.cancelTimer tt).2 = true ↔ ∃ cb, (tt, cb) ∈ s.timerQueue.entries := by
  simp only [OrderedMap.mem_entries_iff, ← Option.isSome_iff_exists]
  unfold cancelTimer
  split_ifs with hf <;> simp [hf]

/-- The counter of the events, as far as 32 bits go. -/
def Counted (s : TimerStage ε) : Prop := s.numEvents = UInt32.ofNat s.timerQueue.size

theorem Counted.registerTimer (hs : s.Counted) (h : s.registerTimer tt cb = some (t, first)) :
    t.Counted := by
  obtain ⟨hf, hq, hn, -⟩ := registerTimer_eq_some h
  unfold Counted at hs ⊢
  rw [hn, hs, hq, OrderedMap.size_insert hf, UInt32.ofNat_add]
  rfl

theorem Counted.cancelTimer (hs : s.Counted) (tt : TimerToken) : (s.cancelTimer tt).1.Counted := by
  unfold TimerStage.cancelTimer
  split_ifs with hf
  · have hsize := OrderedMap.size_erase hf
    unfold Counted at hs ⊢
    dsimp only
    rw [hs, ← hsize, UInt32.ofNat_add]
    exact add_sub_cancel_right _ _
  · exact hs

theorem foldl_pred (ds : List (TimerToken × ε)) (n : ℕ) :
    ds.foldl (fun n _ => n - 1) (UInt32.ofNat (ds.length + n)) = UInt32.ofNat n := by
  induction ds with
  | nil => simp
  | cons d ds ih =>
    have hd : UInt32.ofNat (ds.length + 1 + n) - 1 = UInt32.ofNat (ds.length + n) := by
      rw [Nat.add_right_comm, UInt32.ofNat_add]
      exact add_sub_cancel_right _ _
    rw [List.foldl_cons, List.length_cons, hd, ih]

theorem Counted.checkTimer (hs : s.Counted) (now : Timeval) : (s.checkTimer now).Counted := by
  have hsize : s.timerQueue.size
      = (s.doneEvents now).length + (s.checkTimer now).timerQueue.size := by
    have := congrArg List.length
      (List.takeWhile_append_dropWhile (p := fun e => !now.lessThan e.1.time)
        (l := s.timerQueue.entries))
    rw [List.length_append] at this
    exact this.symm
  unfold Counted at hs ⊢
  show (s.doneEvents now).foldl (fun n _ => n - 1) s.numEvents = _
  rw [hs, hsize, foldl_pred]

end TimerStage

namespace TimerWorld

variable {w u : TimerWorld ε} {l : TimerStep ε} {h : ℕ} {tt : TimerToken} {cb : ε}

/-- The map holds the queued timers, and no token with a nonce drawn is made twice. -/
structure Kept (w : TimerWorld ε) : Prop where
  honoured : Honoured w.log
  queued : ∀ e : TimerToken × ε, e ∈ w.stage.timerQueue.entries ↔ Queued w.log e.1 e.2
  counted : w.stage.Counted
  cntr : w.nonceCntr.toNat = w.drawn
  registered : ∀ tt cb, .registered tt cb ∈ w.log → tt.nonce.toNat < w.drawn
  pending : ∀ h tt cb, w.handler h = .registering tt cb →
    tt.nonce.toNat < w.drawn ∧ ∀ cb', .registered tt cb' ∉ w.log
  distinct : ∀ h h' tt tt' cb cb', w.handler h = .registering tt cb →
    w.handler h' = .registering tt' cb' → tt.nonce = tt'.nonce → h = h'
  notAborted : w.aborted = false

theorem kept_start (clock : Timespec) : (({ clock } : TimerWorld ε)).Kept where
  honoured := trivial
  queued := fun e => by simp [OrderedMap.empty, Queued]
  counted := rfl
  cntr := rfl
  registered := fun tt cb hm => by simp at hm
  pending := fun h tt cb hh => by simp at hh
  distinct := fun h h' tt tt' cb cb' hh => by simp at hh
  notAborted := rfl

/-- A step that neither registers, cancels or fires a timer nor draws a nonce. -/
theorem Kept.frame (hw : w.Kept) (hq : u.stage.timerQueue = w.stage.timerQueue)
    (hn : u.stage.numEvents = w.stage.numEvents) (hl : u.log = w.log)
    (hc : u.nonceCntr = w.nonceCntr) (hd : u.drawn = w.drawn) (ha : u.aborted = w.aborted)
    (hh : ∀ h tt cb, u.handler h = .registering tt cb → w.handler h = .registering tt cb) :
    u.Kept where
  honoured := hl ▸ hw.honoured
  queued := by rw [hq, hl]; exact hw.queued
  counted := by
    unfold TimerStage.Counted
    rw [hq, hn]
    exact hw.counted
  cntr := by rw [hc, hd]; exact hw.cntr
  registered := by rw [hl, hd]; exact hw.registered
  pending := fun h tt cb hp => by rw [hl, hd]; exact hw.pending h tt cb (hh h tt cb hp)
  distinct := fun h h' tt tt' cb cb' hp hp' =>
    hw.distinct h h' tt tt' cb cb' (hh h tt cb hp) (hh h' tt' cb' hp')
  notAborted := ha.trans hw.notAborted

/-- A nonce is drawn before the counter comes round. -/
theorem Kept.draw (hw : w.Kept) (hlt : w.drawn + 1 < 2 ^ 64) : w.nextNonce.Kept where
  honoured := hw.honoured
  queued := hw.queued
  counted := hw.counted
  cntr := by
    show (w.nonceCntr + 1).toNat = w.drawn + 1
    rw [UInt64.toNat_add, hw.cntr]
    exact Nat.mod_eq_of_lt hlt
  registered := fun tt cb hm => Nat.lt_succ_of_lt (hw.registered tt cb hm)
  pending := fun h tt cb hp => (hw.pending h tt cb hp).imp_left Nat.lt_succ_of_lt
  distinct := hw.distinct
  notAborted := hw.notAborted

theorem handler_of_setHandler {pc : Handler ε} {h' : ℕ}
    (hh : (w.setHandler h pc).handler h' = .registering tt cb) :
    h' = h ∧ pc = .registering tt cb ∨ h' ≠ h ∧ w.handler h' = .registering tt cb := by
  unfold setHandler at hh
  dsimp only at hh
  by_cases heq : h' = h
  · rw [heq, Function.update_self] at hh
    exact .inl ⟨heq, hh⟩
  · rw [Function.update_of_ne heq] at hh
    exact .inr ⟨heq, hh⟩

/-- The token a handler makes has a nonce of its own. -/
theorem Kept.newToken (hw : w.Kept) (hlt : w.drawn + 1 < 2 ^ 64) (h : ℕ) (time : Timeval) (cb : ε) :
    (w.nextNonce.setHandler h (.registering ⟨time, w.nonceCntr⟩ cb)).Kept := by
  have hu := hw.draw hlt
  have hfresh : ∀ n : UInt64, n.toNat < w.drawn → n ≠ w.nonceCntr := by
    rintro n hn rfl
    exact absurd hw.cntr hn.ne
  constructor
  · exact hu.honoured
  · exact hu.queued
  · exact hu.counted
  · exact hu.cntr
  · exact hu.registered
  · intro h' tt cb' hp
    rcases handler_of_setHandler hp with ⟨-, hpc⟩ | ⟨-, hp⟩
    · simp only [Handler.registering.injEq] at hpc
      obtain ⟨rfl, -⟩ := hpc
      refine ⟨?_, fun cb'' hm => hfresh _ (hw.registered _ cb'' hm) rfl⟩
      show w.nonceCntr.toNat < w.drawn + 1
      rw [hw.cntr]
      exact Nat.lt_succ_self _
    · exact hu.pending h' tt cb' hp
  · intro h₁ h₂ tt₁ tt₂ cb₁ cb₂ hp₁ hp₂ hnonce
    rcases handler_of_setHandler hp₁ with ⟨rfl, hpc₁⟩ | ⟨-, hq₁⟩ <;>
      rcases handler_of_setHandler hp₂ with ⟨rfl, hpc₂⟩ | ⟨-, hq₂⟩
    · rfl
    · simp only [Handler.registering.injEq] at hpc₁
      obtain ⟨rfl, -⟩ := hpc₁
      exact absurd hnonce.symm (hfresh _ (hw.pending h₂ tt₂ cb₂ hq₂).1)
    · simp only [Handler.registering.injEq] at hpc₂
      obtain ⟨rfl, -⟩ := hpc₂
      exact absurd hnonce (hfresh _ (hw.pending h₁ tt₁ cb₁ hq₁).1)
    · exact hu.distinct h₁ h₂ tt₁ tt₂ cb₁ cb₂ hq₁ hq₂ hnonce
  · exact hu.notAborted

theorem Kept.find?_pending (hw : w.Kept) (hh : w.handler h = .registering tt cb) :
    w.stage.timerQueue.find? tt = none := by
  rw [OrderedMap.find?_eq_none_iff]
  rintro e he rfl
  exact (hw.pending h e.1 cb hh).2 e.2 ((hw.queued e).1 he).1

/-- The assertion that the token is unique holds, and the timer is queued. -/
theorem Kept.register (hw : w.Kept) (hh : w.handler h = .registering tt cb) :
    ∃ stage first, w.stage.registerTimer tt cb = some (stage, first)
      ∧ (w.register h tt cb) = { w with
          stage := stage, log := .registered tt cb :: w.log }.setHandler h
            (if first then .signalling else .idle)
      ∧ (w.register h tt cb).Kept := by
  have hf := hw.find?_pending hh
  have hnew := (hw.pending h tt cb hh).2
  obtain ⟨stage, first, hr⟩ := TimerStage.exists_registerTimer hf cb
  have heq : w.register h tt cb = { w with
      stage := stage, log := .registered tt cb :: w.log }.setHandler h
        (if first then .signalling else .idle) := by
    unfold TimerWorld.register
    rw [hr]
  refine ⟨stage, first, hr, heq, ?_⟩
  have hhandler : ∀ h' tt' cb', (w.register h tt cb).handler h' = .registering tt' cb' →
      h' ≠ h ∧ w.handler h' = .registering tt' cb' := by
    intro h' tt' cb' hp
    rw [heq] at hp
    rcases handler_of_setHandler hp with ⟨-, hpc⟩ | hp
    · cases first <;> simp at hpc
    · exact hp
  constructor
  · rw [heq]
    exact ⟨hnew, hw.honoured⟩
  · intro e
    rw [heq]
    show e ∈ stage.timerQueue.entries ↔ Queued (.registered tt cb :: w.log) e.1 e.2
    rw [queued_registered hw.honoured hnew, ← hw.queued,
      (TimerStage.registerTimer_eq_some hr).2.1, OrderedMap.mem_insert hf, Prod.ext_iff]
  · rw [heq]
    exact hw.counted.registerTimer hr
  · rw [heq]
    exact hw.cntr
  · intro tt' cb' hm
    rw [heq] at hm ⊢
    rcases List.mem_cons.1 hm with hm | hm
    · simp only [Happening.registered.injEq] at hm
      obtain ⟨rfl, rfl⟩ := hm
      exact (hw.pending h _ _ hh).1
    · exact hw.registered tt' cb' hm
  · intro h' tt' cb' hp
    obtain ⟨hne, hp⟩ := hhandler h' tt' cb' hp
    rw [heq]
    refine ⟨(hw.pending h' tt' cb' hp).1, fun cb'' hm => ?_⟩
    rcases List.mem_cons.1 hm with hm | hm
    · simp only [Happening.registered.injEq] at hm
      exact hne (hw.distinct h' h tt' tt cb' cb hp hh (congrArg _ hm.1))
    · exact (hw.pending h' tt' cb' hp).2 cb'' hm
  · intro h₁ h₂ tt₁ tt₂ cb₁ cb₂ hp₁ hp₂
    exact hw.distinct h₁ h₂ tt₁ tt₂ cb₁ cb₂ (hhandler h₁ tt₁ cb₁ hp₁).2 (hhandler h₂ tt₂ cb₂ hp₂).2
  · rw [heq]
    exact hw.notAborted

theorem Kept.success_iff (hw : w.Kept) (tt : TimerToken) :
    (w.stage.cancelTimer tt).2 = true ↔ ∃ cb, Queued w.log tt cb := by
  rw [TimerStage.cancelTimer_success]
  exact exists_congr fun cb => hw.queued (tt, cb)

theorem Kept.cancel (hw : w.Kept) (tt : TimerToken) : { w with
      stage := (w.stage.cancelTimer tt).1
      log := .cancelled tt (w.stage.cancelTimer tt).2 :: w.log : TimerWorld ε }.Kept where
  honoured := ⟨hw.success_iff tt, hw.honoured⟩
  queued := by
    intro e
    rw [queued_cancelled, ← hw.queued, TimerStage.mem_cancelTimer]
    refine and_congr_right fun he => not_congr (iff_self_and.2 ?_)
    rintro rfl
    exact TimerStage.cancelTimer_success.2 ⟨e.2, he⟩
  counted := hw.counted.cancelTimer tt
  cntr := hw.cntr
  registered := fun tt' cb' hm => hw.registered tt' cb' (by simpa using hm)
  pending := fun h tt' cb' hp => (hw.pending h tt' cb' hp).imp_right fun hno cb'' hm =>
    hno cb'' (by simpa using hm)
  distinct := hw.distinct
  notAborted := hw.notAborted

theorem mem_firing {tt : TimerToken} {cb : ε} :
    .registered tt cb ∈ w.firing ++ w.log ↔ .registered tt cb ∈ w.log := by
  simp [firing]

/-- A round of the timer thread fires what is due, and nothing else. -/
theorem Kept.check (hw : w.Kept) : w.check.Kept where
  honoured := by
    refine honoured_fired hw.honoured (fun e he => ?_) ?_ fun e he => ?_
    · exact (hw.queued e).1 (TimerStage.mem_doneEvents.1 he).1
    · exact List.pairwise_map.2 (TimerStage.sorted_doneEvents.imp fun h => h.ne)
    · exact (TimerStage.mem_doneEvents.1 he).2
  queued := by
    intro e
    show e ∈ (w.stage.checkTimer w.now).timerQueue.entries ↔ Queued (w.firing ++ w.log) e.1 e.2
    unfold firing
    rw [queued_fired, ← hw.queued, TimerStage.mem_checkTimer]
    refine and_congr_right fun he => ?_
    constructor
    · intro hlate d hd heq
      exact hlate (heq ▸ (TimerStage.mem_doneEvents.1 hd).2)
    · intro hno hdue
      exact hno e (TimerStage.mem_doneEvents.2 ⟨he, hdue⟩) rfl
  counted := hw.counted.checkTimer w.now
  cntr := hw.cntr
  registered := fun tt cb hm => hw.registered tt cb (mem_firing.1 hm)
  pending := fun h tt cb hp => (hw.pending h tt cb hp).imp_right fun hno cb' hm =>
    hno cb' (mem_firing.1 hm)
  distinct := hw.distinct
  notAborted := hw.notAborted

/-- Every step keeps the invariant as long as the counter of the nonces has not come round. -/
theorem Kept.step (hw : w.Kept) (hlt : u.drawn < 2 ^ 64) (hs : w.step l = some u) : u.Kept := by
  have ht := (step_eq_some.1 hs).2
  cases l with
  | nextNonce =>
    subst ht
    exact hw.draw hlt
  | newToken h time timerCb =>
    obtain ⟨-, rfl⟩ := ht
    exact hw.newToken hlt h time timerCb
  | registerTimer h =>
    obtain ⟨tt, timerCb, hh, rfl⟩ := ht
    obtain ⟨_, _, -, -, hu⟩ := hw.register hh
    exact hu
  | triggerTimerCheck h =>
    obtain ⟨-, rfl⟩ := ht
    refine hw.frame rfl rfl rfl rfl rfl rfl fun h' tt cb hp => ?_
    rcases handler_of_setHandler hp with ⟨-, hpc⟩ | ⟨-, hp⟩
    · cases hpc
    · exact hp
  | cancelTimer tt =>
    subst ht
    exact hw.cancel tt
  | checkTimer =>
    obtain ⟨-, rfl⟩ := ht
    exact hw.check
  | disconnectPrepare =>
    subst ht
    exact hw.frame rfl rfl rfl rfl rfl rfl fun _ _ _ hp => hp
  | _ =>
    obtain ⟨-, rfl⟩ := ht
    exact hw.frame rfl rfl rfl rfl rfl rfl fun _ _ _ hp => hp

/-- What the users of the timer may rely on. -/
structure TimerSafe (w : TimerWorld ε) : Prop where
  notAborted : w.aborted = false
  /-- Each registered timer has a token of its own. -/
  ownToken : ∀ later past tt cb, w.log = later ++ .registered tt cb :: past →
    ∀ cb', .registered tt cb' ∉ past
  /-- What fires has been registered, is due, has not fired before and is not cancelled. -/
  fired : ∀ later past tt cb now, w.log = later ++ .fired tt cb now :: past →
    .registered tt cb ∈ past ∧ tt.time ≤ now ∧ (∀ cb' now', .fired tt cb' now' ∉ past)
      ∧ .cancelled tt true ∉ past
  cancelled : ∀ later past tt success, w.log = later ++ .cancelled tt success :: past →
    (success = true ↔ ∃ cb, Queued past tt cb)
  /-- A round of the timer thread fires the queued timers that are due, one after the other. -/
  sweep : ∀ u, w.step .checkTimer = some u → ∃ due : List (TimerToken × ε),
    u.log = (due.map fun e => .fired e.1 e.2 w.now).reverse ++ w.log
      ∧ due.Pairwise (fun e f => e.1.lessThan f.1)
      ∧ ∀ e, e ∈ due ↔ Queued w.log e.1 e.2 ∧ e.1.time ≤ w.now
  /-- The map holds the queued timers, and the counter is their number. -/
  queued : ∀ e : TimerToken × ε, e ∈ w.stage.timerQueue.entries ↔ Queued w.log e.1 e.2
  counter : w.stage.numEvents.toNat = w.stage.timerQueue.size

theorem Kept.timerSafe_iff (hw : w.Kept) :
    w.TimerSafe ↔ w.stage.timerQueue.size < 2 ^ 32 := by
  have hcount : w.stage.numEvents.toNat = w.stage.timerQueue.size % 2 ^ 32 := by
    rw [hw.counted, UInt32.toNat_ofNat']
  constructor
  · intro h
    rw [← h.counter]
    exact w.stage.numEvents.toNat_lt
  · intro hlt
    constructor
    · exact hw.notAborted
    · intro later past tt cb hl
      exact hw.honoured.follows hl
    · intro later past tt cb now hl
      obtain ⟨⟨hreg, hf, hc⟩, hdue⟩ := hw.honoured.follows hl
      exact ⟨hreg, hdue, hf, hc⟩
    · intro later past tt success hl
      exact hw.honoured.follows hl
    · intro u hu
      obtain ⟨-, rfl⟩ := (step_eq_some.1 hu).2
      refine ⟨w.stage.doneEvents w.now, rfl, ?_, fun e => ?_⟩
      · exact TimerStage.sorted_doneEvents.imp fun h => TimerToken.lessThan_iff.2 h
      · rw [TimerStage.mem_doneEvents, hw.queued]
    · exact hw.queued
    · rw [hcount, Nat.mod_eq_of_lt hlt]

/-- A registration finds the queue not so long that the counter comes round. -/
def RoomToCount (w : TimerWorld ε) : TimerStep ε → Prop
  | .registerTimer _ => w.stage.timerQueue.size + 1 < 2 ^ 32
  | _ => True

theorem Kept.size_step (hw : w.Kept) (hlt : w.stage.timerQueue.size < 2 ^ 32)
    (hs : w.step l = some u) : u.stage.timerQueue.size < 2 ^ 32 ↔ w.RoomToCount l := by
  have ht := (step_eq_some.1 hs).2
  cases l with
  | nextNonce =>
    subst ht
    exact iff_of_true hlt trivial
  | registerTimer h =>
    obtain ⟨tt, timerCb, hh, rfl⟩ := ht
    obtain ⟨stage, first, hr, heq, -⟩ := hw.register hh
    obtain ⟨hf, hq, -⟩ := TimerStage.registerTimer_eq_some hr
    rw [heq]
    show stage.timerQueue.size < 2 ^ 32 ↔ w.stage.timerQueue.size + 1 < 2 ^ 32
    rw [hq, OrderedMap.size_insert hf]
  | cancelTimer tt =>
    subst ht
    refine iff_of_true (lt_of_le_of_lt ?_ hlt) trivial
    show (w.stage.cancelTimer tt).1.timerQueue.size ≤ _
    unfold TimerStage.cancelTimer
    split_ifs
    · exact List.length_filter_le _ _
    · exact le_rfl
  | checkTimer =>
    obtain ⟨-, rfl⟩ := ht
    exact iff_of_true (lt_of_le_of_lt (List.dropWhile_sublist _).length_le hlt) trivial
  | disconnectPrepare =>
    subst ht
    exact iff_of_true hlt trivial
  | _ =>
    obtain ⟨-, rfl⟩ := ht
    exact iff_of_true hlt trivial

/-- While the nonces last, a run of the timer is safe throughout exactly if no registration finds
`2 ^ 32 - 1` timers queued. -/
theorem timerSafe_throughout_iff {clock : Timespec} {ls : List (TimerStep ε)} {t : TimerWorld ε}
    (hr : (timer ε).run { clock } ls = some t) (hlt : t.drawn < 2 ^ 64) :
    (timer ε).Throughout TimerSafe { clock } ls ↔ (timer ε).Meets RoomToCount { clock } ls := by
  refine (timer ε).throughout_iff_meets (B := fun w => w.drawn < 2 ^ 64) (I := Kept)
    (fun s l u hs => (drawn_le hs).trans_lt) (fun s l u hlt hk hsafe hs => ?_) ls hlt
    (kept_start clock) ((kept_start clock).timerSafe_iff.2 ?_) hr
  · have hu := hk.step hlt hs
    exact ⟨hu, hu.timerSafe_iff.trans (hk.size_step (hk.timerSafe_iff.1 hsafe) hs)⟩
  · exact Nat.two_pow_pos 32

/-- A timer is registered, the timer thread woken for it, and the timer fired at its time. -/
theorem timerSafe_one_timer : ∃ t, (timer Unit).run { clock := ⟨0, 0⟩ }
      [.startTimerThread, .checkTimer, .newToken 0 ⟨5, 0⟩ (), .registerTimer 0,
        .triggerTimerCheck 0, .wake, .checkTimer, .tick ⟨5, 0⟩, .wake, .checkTimer] = some t
    ∧ t.log.length = 2
    ∧ ((timer Unit).Throughout TimerSafe { clock := ⟨0, 0⟩ }
        [.startTimerThread, .checkTimer, .newToken 0 ⟨5, 0⟩ (), .registerTimer 0,
          .triggerTimerCheck 0, .wake, .checkTimer, .tick ⟨5, 0⟩, .wake, .checkTimer]
      ↔ (timer Unit).Meets RoomToCount { clock := ⟨0, 0⟩ }
        [.startTimerThread, .checkTimer, .newToken 0 ⟨5, 0⟩ (), .registerTimer 0,
          .triggerTimerCheck 0, .wake, .checkTimer, .tick ⟨5, 0⟩, .wake, .checkTimer]) :=
  ⟨_, rfl, rfl, timerSafe_throughout_iff rfl (by decide)⟩

/-- `n` timers with one deadline. -/
def registrations : ℕ → List (TimerStep Unit)
  | 0 => []
  | n + 1 => registrations n ++ [.newToken n ⟨0, 0⟩ (), .registerTimer n]

theorem run_registrations (n : ℕ) (hn : n < 2 ^ 64) :
    ∃ w, (timer Unit).run { clock := ⟨0, 0⟩ } (registrations n) = some w ∧ w.Kept
      ∧ w.stage.timerQueue.size = n ∧ w.drawn = n ∧ ∀ h ≥ n, w.handler h = .idle := by
  induction n with
  | zero => exact ⟨_, rfl, kept_start _, rfl, rfl, fun _ _ => rfl⟩
  | succ n ih =>
    obtain ⟨w, hrun, hw, hsize, hdrawn, hidle⟩ := ih (by omega)
    have hnew := hw.newToken (by omega) n ⟨0, 0⟩ ()
    have hs₁ : w.step (.newToken n ⟨0, 0⟩ ()) = some (w.nextNonce.setHandler n
        (.registering ⟨⟨0, 0⟩, w.nonceCntr⟩ ())) :=
      step_eq_some.2 ⟨hw.notAborted, hidle n le_rfl, rfl⟩
    have hh : (w.nextNonce.setHandler n (.registering ⟨⟨0, 0⟩, w.nonceCntr⟩ ())).handler n
        = .registering ⟨⟨0, 0⟩, w.nonceCntr⟩ () := Function.update_self _ _ _
    have hs₂ := step_eq_some (l := .registerTimer n).2 ⟨hnew.notAborted, _, _, hh, rfl⟩
    obtain ⟨stage, first, hr, heq, hu⟩ := hnew.register hh
    obtain ⟨hf, hq, -⟩ := TimerStage.registerTimer_eq_some hr
    refine ⟨_, ?_, hu, ?_, ?_, fun h hge => ?_⟩
    · rw [registrations, Machine.run_append, hrun, Option.bind_some, Machine.run_cons,
        timer_step, hs₁, Option.bind_some, Machine.run_cons, timer_step, hs₂, Option.bind_some,
        Machine.run_nil]
    · rw [heq]
      show stage.timerQueue.size = n + 1
      rw [hq, OrderedMap.size_insert hf]
      exact congrArg (· + 1) hsize
    · rw [heq]
      show w.drawn + 1 = n + 1
      rw [hdrawn]
    · rw [heq]
      show Function.update (Function.update w.handler n _) n _ h = Handler.idle
      rw [Function.update_of_ne (by omega), Function.update_of_ne (by omega)]
      exact hidle h (by omega)

/-- The counter of the events after `2 ^ 32` registrations. -/
theorem numEvents_wraps : ∃ w,
    (timer Unit).run { clock := ⟨0, 0⟩ } (registrations (2 ^ 32)) = some w ∧ w.drawn < 2 ^ 64
      ∧ w.stage.timerQueue.size = 2 ^ 32 ∧ w.stage.numEvents = 0 ∧ ¬ w.TimerSafe := by
  obtain ⟨w, hrun, hw, hsize, hdrawn, -⟩ := run_registrations (2 ^ 32) (by omega)
  have hcount : w.stage.numEvents = 0 := by
    rw [hw.counted, hsize]
    rfl
  refine ⟨w, hrun, by omega, hsize, hcount, fun hsafe => ?_⟩
  exact absurd (hw.timerSafe_iff.1 hsafe) (by rw [hsize]; exact lt_irrefl _)

end TimerWorld

end Longda
