import Longda.Net.Custody

/-!
# Teardown of a connection

The threads at the connection manager do nothing but the moves of `Custody` (`moves_of_step`), so
that what holds of the custody holds in every state the manager reaches (`reachable_inv`): a
connection is torn down once, by the last one who had it, and when nobody can get it any more
(`torn_down_once`).
-/

namespace Longda

open Lib

def Pc.routine : Pc → Routine
  | .idle => .idle
  | .acquire c | .acquireIn c => .acquire c
  | .release c | .releaseIn c => .release c
  | .cleanup c _ caller | .cleanupIn c _ caller => .cleanup c caller
  | .teardown c caller => .teardown c caller
  | .erase sock => .erase sock

theorem routine_after (caller : Caller) : caller.after.routine = caller.next := by
  cases caller <;> rfl

variable {τ : Type} [DecidableEq τ]

def Mgr.custody (s : Mgr τ) : Custody τ where
  sockConnMap := s.sockConnMap
  mRefCount c := (s.conns c).mRefCount
  mCleaning c := (s.conns c).mCleaning
  nextConn := s.nextConn
  mapMutex := s.mapMutex
  at_ t := (s.pc t).routine
  refs := s.refs
  lastOut := s.lastOut
  torn := s.torn
  deleted := s.deleted

variable {s s' : Mgr τ} {t : τ} {c : ConnId} {pc : Pc}

theorem routine_update : (fun u => (Function.update s.pc t pc u).routine)
    = Function.update s.custody.at_ t pc.routine := by
  funext u
  by_cases h : u = t
  · rw [h, Function.update_self, Function.update_self]
  · rw [Function.update_of_ne h, Function.update_of_ne h]
    rfl

omit [DecidableEq τ] in
theorem field_update {β : Type} {f : ConnRefs → β} {r : ConnRefs} :
    (fun d => f (Function.update s.conns c r d))
      = Function.update (fun d => f (s.conns d)) c (f r) := by
  funext d
  by_cases h : d = c
  · rw [h, Function.update_self, Function.update_self]
  · rw [Function.update_of_ne h, Function.update_of_ne h]

theorem custody_goto : (s.goto t pc).custody = s.custody.goto t pc.routine := by
  simp only [Mgr.custody, Mgr.goto, Custody.goto]
  rw [routine_update]
  rfl

theorem custody_leaveConn {r : ConnRefs} : (s.leaveConn t c r pc).custody =
    { s.custody.goto t pc.routine with
      mRefCount := Function.update s.custody.mRefCount c r.mRefCount
      mCleaning := Function.update s.custody.mCleaning c r.mCleaning } := by
  simp only [Mgr.leaveConn, Mgr.custody, Mgr.goto, Custody.goto]
  rw [routine_update, field_update, field_update]
  rfl

theorem moves_lockConn (hpc : pc.routine = (s.pc t).routine)
    (h : s.lockConn t c pc = some s') : s.custody.Moves t s'.custody := by
  unfold Mgr.lockConn at h
  split_ifs at h
  rw [Option.some.injEq] at h
  have : s'.custody = s.custody := by
    rw [← h]
    change (s.goto t pc).custody = s.custody
    rw [custody_goto, hpc]
    simp only [Custody.goto]
    rw [show (s.pc t).routine = s.custody.at_ t from rfl, Function.update_eq_self]
  rw [this]
  exact .stay

theorem moves_of_enter {a : MgrAct} (hat : s.pc t = .idle) (h : s.enter t a = some s') :
    s.custody.Moves t s'.custody := by
  have hat' : s.custody.at_ t = .idle := congrArg Pc.routine hat
  cases a with
  | lockMap =>
    simp only [Mgr.enter] at h
    split_ifs at h with hm
    cases h
    exact .lockMap hat' hm
  | unlockMap =>
    simp only [Mgr.enter] at h
    split_ifs at h with hm
    cases h
    exact .unlockMap hat' hm
  | find k =>
    simp only [Mgr.enter] at h
    split_ifs at h with hm
    rcases hk : s.sockConnMap k with _ | c <;> rw [hk] at h <;> cases h
    · exact .stay
    · rw [custody_goto]
      exact .find hat' hm hk
  | insert k =>
    simp only [Mgr.enter] at h
    split_ifs at h with hm
    cases h
    exact .insert hat' hm.1 hm.2
  | remove k =>
    simp only [Mgr.enter] at h
    split_ifs at h with hm
    rcases hk : s.sockConnMap k with _ | c <;> rw [hk] at h <;> cases h
    · exact .stay
    · rw [custody_goto]
      exact .remove hat' hm hk
  | release c =>
    simp only [Mgr.enter] at h
    split_ifs at h with hr
    cases h
    rw [custody_goto]
    exact .release hat' hr
  | goOn => cases h

/-- Passing through what a routine does under the mutex is the move of that routine. -/
theorem moves_of_goOn (h : s.goOn t (s.pc t) = some s') : s.custody.Moves t s'.custody := by
  have hat : s.custody.at_ t = (s.pc t).routine := rfl
  rcases hp : s.pc t with _ | c | c | c | c | ⟨c, how, caller⟩ | ⟨c, how, caller⟩ | ⟨c, caller⟩ | k
    <;> rw [hp] at h hat
  · cases h
  · refine moves_lockConn ?_ h
    rw [hp]
    rfl
  · cases h
    change s.custody.Moves t { (s.leaveConn t c (s.conns c).acquire .idle).custody with
      refs := (t, c) :: s.refs }
    rw [custody_leaveConn, show (s.conns c).acquire.mCleaning = s.custody.mCleaning c from rfl,
      Function.update_eq_self]
    exact .acquired hat
  · refine moves_lockConn ?_ h
    rw [hp]
    rfl
  · cases h
    have hmove : ∀ pc : Pc, pc.routine = (if s.custody.mRefCount c - 1 = 0
        ∧ s.custody.mCleaning c = true then .cleanup c .release else .idle) →
        s.custody.Moves t { (s.leaveConn t c (s.conns c).release.2 pc).custody with
          refs := s.refs.erase (t, c), lastOut := Function.update s.lastOut c (some t) } := by
      intro pc hpc
      rw [custody_leaveConn, hpc,
        show (s.conns c).release.2.mCleaning = s.custody.mCleaning c from rfl,
        Function.update_eq_self]
      exact .released hat
    refine hmove _ ?_
    rw [apply_ite Pc.routine]
    simp only [Bool.and_eq_true, beq_iff_eq, Mgr.custody]
    rfl
  · refine moves_lockConn ?_ h
    rw [hp]
    rfl
  · by_cases hc : 0 < (s.conns c).mRefCount
    · have hr : (s.conns c).cleanup how = (false, { s.conns c with
          mCleaning := true, mCleanType := how }) := if_pos hc
      simp only [Mgr.goOn, hr, Bool.false_eq_true, if_false] at h
      cases h
      change s.custody.Moves t { (s.leaveConn t c _ caller.after).custody with
        lastOut := Function.update s.lastOut c (some t) }
      rw [custody_leaveConn, routine_after]
      change s.custody.Moves t { s.custody.goto t caller.next with
        mRefCount := Function.update s.custody.mRefCount c (s.custody.mRefCount c)
        mCleaning := Function.update s.custody.mCleaning c true
        lastOut := Function.update s.lastOut c (some t) }
      rw [Function.update_eq_self]
      exact .busy hat hc
    · have hr : (s.conns c).cleanup how = (true, { s.conns c with mCleaning := true }) :=
        if_neg hc
      simp only [Mgr.goOn, hr, if_true] at h
      cases h
      change s.custody.Moves t { (s.leaveConn t c _ (.teardown c caller)).custody with
        lastOut := Function.update s.lastOut c (some t)
        torn := Function.update s.torn c (s.torn c + 1) }
      rw [custody_leaveConn]
      change s.custody.Moves t { s.custody.goto t (.teardown c caller) with
        mRefCount := Function.update s.custody.mRefCount c (s.custody.mRefCount c)
        mCleaning := Function.update s.custody.mCleaning c true
        lastOut := Function.update s.lastOut c (some t)
        torn := Function.update s.torn c (s.torn c + 1) }
      rw [Function.update_eq_self]
      exact .last hat (not_lt.1 hc)
  · cases h
    have hs : (s.goto t caller.after).custody = s.custody.goto t caller.next := by
      rw [custody_goto, routine_after]
    have := Custody.Moves.done hat
    rw [← hs] at this
    exact this
  · cases h
    have hs : (s.goto t .idle).custody = s.custody.goto t .idle := custody_goto
    have := Custody.Moves.erased hat
    rw [← hs] at this
    exact this

theorem moves_of_step {a : MgrAct} (h : (mgr τ).step s (t, a) = some s') :
    s.custody.Moves t s'.custody := by
  simp only [mgr] at h
  split_ifs at h with hat ha
  · exact moves_of_enter hat h
  · exact moves_of_goOn h

/-! ## Runs -/

omit [DecidableEq τ] in
theorem inv_start : (Mgr.custody ({} : Mgr τ)).Inv where
  threads _ := trivial
  count _ := rfl
  unborn _ _ := ⟨rfl, rfl, rfl, rfl⟩
  mapped _ _ h := by cases h
  inj _ _ _ h := by cases h
  listed _ _ h := by cases h
  unlisted _ h := absurd h.1 (Nat.not_lt_zero _)
  torn _ h := absurd rfl h
  deleted _ h := by cases h
  served _ h := by cases h

theorem reachable_inv {ls : List (τ × MgrAct)} (h : (mgr τ).run {} ls = some s) :
    s.custody.Inv :=
  (mgr τ).run_inv_of_step (I := fun s => s.custody.Inv)
    (fun _ _ _ hs h => Custody.inv_of_moves hs (moves_of_step h)) ls inv_start h

theorem Custody.torn_le {s s' : Custody τ} (h : s.Moves t s') (c : ConnId) :
    s.torn c ≤ s'.torn c := by
  cases h with
  | @last d caller hat hc =>
    change s.torn c ≤ Function.update s.torn d (s.torn d + 1) c
    by_cases h : c = d
    · rw [h, Function.update_self]
      exact Nat.le_succ _
    · rw [Function.update_of_ne h]
  | _ => exact le_rfl

theorem torn_le_of_run {ls : List (τ × MgrAct)} (h : (mgr τ).run s ls = some s') :
    s.torn c ≤ s'.torn c :=
  (mgr τ).run_inv_of_step (I := fun u => s.torn c ≤ u.torn c)
    (fun _ _ _ hu h => hu.trans (Custody.torn_le (moves_of_step h) c)) ls le_rfl h

/-- The teardown of the connection as a state of the manager shows it. -/
structure Mgr.TornDownOnce (s : Mgr τ) (c : ConnId) : Prop where
  once : s.torn c ≤ 1
  refCount : s.torn c ≠ 0 → (s.conns c).mRefCount = 0
  noHolder : s.torn c ≠ 0 → ∀ t, (t, c) ∉ s.refs
  noLookup : s.torn c ≠ 0 → ∀ t, s.pc t ≠ .acquire c ∧ s.pc t ≠ .acquireIn c
  /-- Once it is removed and all references are given back it is gone, or the one thread that gave
  it up last is in its `cleanup`. -/
  served : (s.conns c).mCleaning = true ∨ c < s.nextConn ∧ (∀ k, s.sockConnMap k ≠ some c) →
    (∀ t, (t, c) ∉ s.refs) → s.torn c = 1 ∧ s.deleted c = true ∨
      ∃ t, s.lastOut c = some t ∧ s.custody.OnDuty t c ∧ ∀ u, s.custody.OnDuty u c → u = t

omit [DecidableEq τ] in
theorem tornDownOnce_of_inv (hs : s.custody.Inv) (c : ConnId) : s.TornDownOnce c where
  once := by
    by_cases h : s.torn c = 0
    · omega
    · exact (hs.torn c h).1.le
  refCount h := hs.unreferenced_iff.2 (hs.torn c h).2.2
  noHolder h := (hs.torn c h).2.2
  noLookup h t := by
    have hno : s.custody.at_ t ≠ .acquire c := by
      intro hat
      have ht := hs.threads t
      rw [hat] at ht
      obtain ⟨hm, k, hk⟩ := ht
      have hclean := hs.not_cleaning hm hk (by simp [hat]) (by simp [hat])
      rw [(hs.torn c h).2.1] at hclean
      cases hclean
    exact ⟨fun hp => hno (congrArg Pc.routine hp), fun hp => hno (congrArg Pc.routine hp)⟩
  served hr hu := by
    have hclean : (s.conns c).mCleaning = true := hr.elim id (hs.unlisted c)
    rcases hs.served c hclean hu with hdel | ⟨t, ht⟩
    · exact .inl ⟨hs.deleted c hdel, hdel⟩
    · have hout := (hs.due ht).2.2.2
      refine .inr ⟨t, hout, ht, fun u hu => ?_⟩
      exact Option.some.inj ((hs.due hu).2.2.2.symm.trans hout)

/-- Whatever the threads do, a connection is torn down once at most, when nobody has a reference to
it; from then on nobody gets one; and a removed connection without references is torn down, or being
torn down by the thread that had it last. -/
theorem torn_down_once (ls : List (τ × MgrAct)) (h : (mgr τ).run {} ls = some s) (c : ConnId) :
    s.TornDownOnce c ∧ ∀ ks s', (mgr τ).run s ks = some s' → s.torn c ≠ 0 →
      s'.torn c = 1 ∧ (∀ t, (t, c) ∉ s'.refs) ∧
        ∀ t, s'.pc t ≠ .acquire c ∧ s'.pc t ≠ .acquireIn c := by
  have hall : ∀ {ls : List (τ × MgrAct)} {s : Mgr τ}, (mgr τ).run {} ls = some s →
      s.TornDownOnce c := fun h => tornDownOnce_of_inv (reachable_inv h) c
  refine ⟨hall h, fun ks s' hk ht => ?_⟩
  have hle : s.torn c ≤ s'.torn c := torn_le_of_run hk
  have hrun : (mgr τ).run {} (ls ++ ks) = some s' := by
    rw [Machine.run_append, h]
    exact hk
  have hs' : s'.TornDownOnce c := hall hrun
  have hne : s'.torn c ≠ 0 := by omega
  have := hs'.once
  exact ⟨by omega, hs'.noHolder hne, hs'.noLookup hne⟩

/-- One thread removes a connection while another has it. -/
def removedInUse : List (Bool × MgrAct) :=
  [(false, .lockMap), (false, .insert 5), (false, .find 5), (false, .goOn), (false, .goOn),
    (false, .unlockMap), (true, .lockMap), (true, .remove 5), (true, .goOn), (true, .goOn),
    (false, .release 0), (false, .goOn), (false, .goOn), (false, .goOn), (false, .goOn),
    (true, .goOn)]

theorem torn_down_once_in_use : ∃ s, (mgr Bool).run {} removedInUse = some s ∧ s.torn 0 = 1
    ∧ s.lastOut 0 = some false ∧ s.TornDownOnce 0 :=
  ⟨_, rfl, rfl, rfl, (torn_down_once removedInUse rfl 0).1⟩

end Longda
