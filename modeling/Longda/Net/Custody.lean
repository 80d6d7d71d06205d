import Longda.Net.ConnMgr

/-!
# Who has a connection

`Custody` is what the threads at the connection manager do to the connections, without the mutexes
of the connections: each thread is in a routine, and passes through what the routine does under the
mutex at once. The machine `mgr` refines it (`moves_of_step`). `Custody.Inv` is what every state of
it satisfies: the reference count is the number of references, a connection in the map is not being
cleaned up but by the thread that has the map, and a connection being cleaned up without references
is torn down or has exactly one thread on duty for that.
-/

namespace Longda

open Lib

/-- What a thread is doing, whether or not it has got the mutex for it. -/
inductive Routine where
  | idle
  | acquire (conn : ConnId)
  | release (conn : ConnId)
  | cleanup (conn : ConnId) (caller : Caller)
  | teardown (conn : ConnId) (caller : Caller)
  | erase (sock : Int32)

def Caller.next : Caller → Routine
  | .release => .idle
  | .remove sock => .erase sock

structure Custody (τ : Type) where
  sockConnMap : Int32 → Option ConnId
  mRefCount : ConnId → ℤ
  mCleaning : ConnId → Bool
  nextConn : ConnId
  mapMutex : Option τ
  at_ : τ → Routine
  refs : List (τ × ConnId)
  lastOut : ConnId → Option τ
  torn : ConnId → ℕ
  deleted : ConnId → Bool

variable {τ : Type} [DecidableEq τ]

namespace Custody

/-- The thread has the teardown of the connection to run, or runs it. -/
def OnDuty (s : Custody τ) (t : τ) (c : ConnId) : Prop :=
  s.at_ t = .cleanup c .release ∨ ∃ caller, s.at_ t = .teardown c caller

/-- The thread is on its way to take the socket of the connection out of the map. -/
def Removing (s : Custody τ) (t : τ) (k : Int32) (c : ConnId) : Prop :=
  s.at_ t = .teardown c (.remove k) ∨ s.at_ t = .erase k

/-- Nobody has a reference to the connection. -/
def Unreferenced (s : Custody τ) (c : ConnId) : Prop := ∀ t, (t, c) ∉ s.refs

/-- The connection was in the map and is not any more. -/
def Removed (s : Custody τ) (c : ConnId) : Prop :=
  c < s.nextConn ∧ ∀ k, s.sockConnMap k ≠ some c

/-- The teardown of the connection is due, and falls to the thread that gave it up last. -/
def Due (s : Custody τ) (t : τ) (c : ConnId) : Prop :=
  s.mCleaning c = true ∧ s.Unreferenced c ∧ s.deleted c = false ∧ s.lastOut c = some t

/-- What a thread may rely on while it is in a routine. -/
def Asserts (s : Custody τ) (t : τ) : Routine → Prop
  | .idle => True
  | .acquire c => s.mapMutex = some t ∧ ∃ k, s.sockConnMap k = some c
  | .release c => (t, c) ∈ s.refs
  | .cleanup c .release => s.Due t c ∧ s.torn c = 0
  | .cleanup c (.remove k) => s.mapMutex = some t ∧ s.sockConnMap k = some c
  | .teardown c .release => s.Due t c ∧ s.torn c = 1
  | .teardown c (.remove k) =>
    s.Due t c ∧ s.torn c = 1 ∧ s.mapMutex = some t ∧ s.sockConnMap k = some c
  | .erase k => s.mapMutex = some t ∧ ∀ c, s.sockConnMap k = some c → s.mCleaning c = true

/-- What holds in every state. -/
structure Inv (s : Custody τ) : Prop where
  threads : ∀ t, s.Asserts t (s.at_ t)
  count : ∀ c, s.mRefCount c = s.refs.countP (·.2 = c)
  unborn : ∀ c, s.nextConn ≤ c →
    s.mRefCount c = 0 ∧ s.mCleaning c = false ∧ s.torn c = 0 ∧ s.deleted c = false
  mapped : ∀ k c, s.sockConnMap k = some c → c < s.nextConn
  inj : ∀ k k' c, s.sockConnMap k = some c → s.sockConnMap k' = some c → k = k'
  listed : ∀ k c, s.sockConnMap k = some c → s.mCleaning c = true → ∃ t, s.Removing t k c
  unlisted : ∀ c, s.Removed c → s.mCleaning c = true
  torn : ∀ c, s.torn c ≠ 0 → s.torn c = 1 ∧ s.mCleaning c = true ∧ s.Unreferenced c
  deleted : ∀ c, s.deleted c = true → s.torn c = 1
  served : ∀ c, s.mCleaning c = true → s.Unreferenced c → s.deleted c = true ∨ ∃ t, s.OnDuty t c

def goto (s : Custody τ) (t : τ) (r : Routine) : Custody τ :=
  { s with at_ := Function.update s.at_ t r }

/-- What a step of a thread does. -/
inductive Moves (s : Custody τ) (t : τ) : Custody τ → Prop
  | stay : Moves s t s
  | lockMap : s.at_ t = .idle → s.mapMutex = none → Moves s t { s with mapMutex := some t }
  | unlockMap : s.at_ t = .idle → s.mapMutex = some t → Moves s t { s with mapMutex := none }
  | find {k : Int32} {c : ConnId} : s.at_ t = .idle → s.mapMutex = some t →
    s.sockConnMap k = some c → Moves s t (s.goto t (.acquire c))
  | insert {k : Int32} : s.at_ t = .idle → s.mapMutex = some t → s.sockConnMap k = none →
    Moves s t { s with
      sockConnMap := Function.update s.sockConnMap k (some s.nextConn)
      nextConn := s.nextConn + 1 }
  | remove {k : Int32} {c : ConnId} : s.at_ t = .idle → s.mapMutex = some t →
    s.sockConnMap k = some c → Moves s t (s.goto t (.cleanup c (.remove k)))
  | release {c : ConnId} : s.at_ t = .idle → (t, c) ∈ s.refs → Moves s t (s.goto t (.release c))
  | acquired {c : ConnId} : s.at_ t = .acquire c →
    Moves s t { s.goto t .idle with
      mRefCount := Function.update s.mRefCount c (s.mRefCount c + 1), refs := (t, c) :: s.refs }
  | released {c : ConnId} : s.at_ t = .release c →
    Moves s t { s.goto t
        (if s.mRefCount c - 1 = 0 ∧ s.mCleaning c = true then .cleanup c .release else .idle) with
      mRefCount := Function.update s.mRefCount c (s.mRefCount c - 1)
      refs := s.refs.erase (t, c), lastOut := Function.update s.lastOut c (some t) }
  | busy {c : ConnId} {caller : Caller} : s.at_ t = .cleanup c caller → 0 < s.mRefCount c →
    Moves s t { s.goto t caller.next with
      mCleaning := Function.update s.mCleaning c true
      lastOut := Function.update s.lastOut c (some t) }
  | last {c : ConnId} {caller : Caller} : s.at_ t = .cleanup c caller → s.mRefCount c ≤ 0 →
    Moves s t { s.goto t (.teardown c caller) with
      mCleaning := Function.update s.mCleaning c true
      lastOut := Function.update s.lastOut c (some t)
      torn := Function.update s.torn c (s.torn c + 1) }
  | done {c : ConnId} {caller : Caller} : s.at_ t = .teardown c caller →
    Moves s t { s.goto t caller.next with deleted := Function.update s.deleted c true }
  | erased {k : Int32} : s.at_ t = .erase k →
    Moves s t { s.goto t .idle with sockConnMap := Function.update s.sockConnMap k none }

section Facts

variable {s : Custody τ} {t : τ} {c : ConnId}

omit [DecidableEq τ]

theorem countP_refs_eq_zero {refs : List (τ × ConnId)} :
    ((refs.countP (·.2 = c) : ℕ) : ℤ) = 0 ↔ ∀ u, (u, c) ∉ refs := by
  rw [Int.natCast_eq_zero, List.countP_eq_zero]
  refine ⟨fun h u hu => h _ hu (by simp), fun h => ?_⟩
  rintro ⟨u, d⟩ hu hd
  rw [decide_eq_true_iff] at hd
  exact h u (hd ▸ hu)

theorem Inv.unreferenced_iff (hs : s.Inv) : s.mRefCount c = 0 ↔ s.Unreferenced c := by
  rw [hs.count, countP_refs_eq_zero, Unreferenced]

theorem Inv.refCount_nonneg (hs : s.Inv) (c : ConnId) : 0 ≤ s.mRefCount c := by
  rw [hs.count]
  exact Int.natCast_nonneg _

theorem Inv.due (hs : s.Inv) (h : s.OnDuty t c) : s.Due t c := by
  have ht := hs.threads t
  rcases h with h | ⟨_ | k, h⟩ <;> rw [h] at ht <;> exact ht.1

/-- Who has the map finds no connection in it that is being cleaned up, but his own. -/
theorem Inv.not_cleaning {k : Int32} (hs : s.Inv) (hm : s.mapMutex = some t)
    (hk : s.sockConnMap k = some c) (h₁ : s.at_ t ≠ .teardown c (.remove k))
    (h₂ : s.at_ t ≠ .erase k) : s.mCleaning c = false := by
  by_contra hc
  obtain ⟨u, hu⟩ := hs.listed k c hk (by simpa using hc)
  have hown : s.mapMutex = some u := by
    have hu' := hs.threads u
    rcases hu with hu | hu <;> rw [hu] at hu'
    · exact hu'.2.2.1
    · exact hu'.1
  obtain rfl : t = u := by simpa [hm] using hown
  rcases hu with hu | hu
  · exact h₁ hu
  · exact h₂ hu

end Facts

variable {s s' : Custody τ} {t u : τ} {c : ConnId} {k : Int32} {r : Routine}

theorem goto_at (h : u ≠ t) : (s.goto t r).at_ u = s.at_ u := Function.update_of_ne h _ _

theorem goto_at_self : (s.goto t r).at_ t = r := Function.update_self ..

omit [DecidableEq τ] in
/-- A thread may go on relying on what it relied on if nobody else changes the map under it, takes
its references, or takes part in a teardown that is its own. -/
theorem Asserts.mono (h : s.Asserts u r)
    (hmap : s.mapMutex = some u → s'.mapMutex = some u ∧ s'.sockConnMap = s.sockConnMap)
    (hrefs : ∀ c, (u, c) ∈ s.refs → (u, c) ∈ s'.refs)
    (hclean : ∀ c, s.mCleaning c = true → s'.mCleaning c = true)
    (hdue : ∀ c, s.Due u c → s'.Due u c ∧ s'.torn c = s.torn c) : s'.Asserts u r := by
  rcases r with _ | c | c | ⟨c, _ | k⟩ | ⟨c, _ | k⟩ | k
  · trivial
  · obtain ⟨hm, k, hk⟩ := h
    exact ⟨(hmap hm).1, k, (hmap hm).2 ▸ hk⟩
  · exact hrefs c h
  · exact ⟨(hdue c h.1).1, (hdue c h.1).2.trans h.2⟩
  · obtain ⟨hm, hk⟩ := h
    exact ⟨(hmap hm).1, (hmap hm).2 ▸ hk⟩
  · exact ⟨(hdue c h.1).1, (hdue c h.1).2.trans h.2⟩
  · obtain ⟨hd, ht, hm, hk⟩ := h
    exact ⟨(hdue c hd).1, (hdue c hd).2.trans ht, (hmap hm).1, (hmap hm).2 ▸ hk⟩
  · obtain ⟨hm, hc⟩ := h
    exact ⟨(hmap hm).1, fun c hk => hclean c (hc c ((hmap hm).2 ▸ hk))⟩

/-- A step keeps what the threads rely on where it gives its own thread what that may rely on, and
takes nothing from the others. -/
theorem threads_of_goto (hs : s.Inv) (hat : s'.at_ = (s.goto t r).at_) (ht : s'.Asserts t r)
    (hmap : s'.mapMutex = s.mapMutex ∧ s'.sockConnMap = s.sockConnMap ∨ s.mapMutex = some t)
    (hrefs : ∀ u c, u ≠ t → (u, c) ∈ s.refs → (u, c) ∈ s'.refs)
    (hclean : ∀ c, s.mCleaning c = true → s'.mCleaning c = true)
    (hdue : ∀ u c, u ≠ t → s.Due u c → s'.Due u c ∧ s'.torn c = s.torn c) (u : τ) :
    s'.Asserts u (s'.at_ u) := by
  rw [hat]
  by_cases h : u = t
  · subst h
    rwa [goto_at_self]
  · rw [goto_at h]
    refine (hs.threads u).mono ?_ (fun c => hrefs u c h) hclean (fun c => hdue u c h)
    intro hm
    rcases hmap with ⟨h₁, h₂⟩ | hmt
    · exact ⟨h₁.trans hm, h₂⟩
    · rw [hmt, Option.some.injEq] at hm
      exact absurd hm.symm h

theorem exists_goto {P : Routine → Prop} (hat : s'.at_ = (s.goto t r).at_) (hP : ¬ P (s.at_ t))
    (h : ∃ u, P (s.at_ u)) : ∃ u, P (s'.at_ u) := by
  obtain ⟨u, hu⟩ := h
  refine ⟨u, ?_⟩
  rwa [hat, goto_at]
  rintro rfl
  exact hP hu

theorem exists_removing_goto (hat : s'.at_ = (s.goto t r).at_) (ht : ¬ s.Removing t k c)
    (h : ∃ u, s.Removing u k c) : ∃ u, s'.Removing u k c :=
  exists_goto (P := fun r => r = .teardown c (.remove k) ∨ r = .erase k) hat ht h

theorem exists_onDuty_goto (hat : s'.at_ = (s.goto t r).at_) (ht : ¬ s.OnDuty t c)
    (h : ∃ u, s.OnDuty u c) : ∃ u, s'.OnDuty u c :=
  exists_goto (P := fun r => r = .cleanup c .release ∨ ∃ caller, r = .teardown c caller) hat ht h

theorem cleaning_update {cleaning : ConnId → Bool} {d : ConnId} (h : cleaning d = true) :
    Function.update cleaning c true d = true := by
  by_cases hd : d = c
  · rw [hd, Function.update_self]
  · rw [Function.update_of_ne hd, h]

/-! ## One lemma for each step -/

/-- A thread that enters a routine changes nothing but where it is. -/
theorem inv_enter (hs : s.Inv) (hat : s.at_ t = .idle) (hr : s.Asserts t r) : (s.goto t r).Inv := by
  refine { hs with
    threads := threads_of_goto hs rfl (hr.mono (fun h => ⟨h, rfl⟩) (fun _ => id) (fun _ => id)
      fun _ h => ⟨h, rfl⟩) (.inl ⟨rfl, rfl⟩) (fun _ _ _ => id) (fun _ => id)
      fun _ _ _ h => ⟨h, rfl⟩
    listed := fun k c hk hc => ?_
    served := fun c hc hu => ?_ }
  · exact exists_removing_goto rfl (by simp [Removing, hat]) (hs.listed k c hk hc)
  · refine (hs.served c hc hu).imp_right fun h => ?_
    exact exists_onDuty_goto rfl (by simp [OnDuty, hat]) h

omit [DecidableEq τ] in
theorem inv_lockMap (hs : s.Inv) (hm : s.mapMutex = none) :
    Custody.Inv { s with mapMutex := some t } := by
  refine { hs with threads := fun u => ?_ }
  refine (hs.threads u).mono (fun h => ?_) (fun _ => id) (fun _ => id) fun _ h => ⟨h, rfl⟩
  rw [hm] at h
  cases h

theorem inv_unlockMap (hs : s.Inv) (hat : s.at_ t = .idle) (hm : s.mapMutex = some t) :
    Custody.Inv { s with mapMutex := none } := by
  refine { hs with threads := fun u => ?_ }
  by_cases h : u = t
  · subst h
    rw [show Custody.at_ { s with mapMutex := none } u = s.at_ u from rfl, hat]
    trivial
  · refine (hs.threads u).mono (fun hu => ?_) (fun _ => id) (fun _ => id) fun _ h => ⟨h, rfl⟩
    rw [hm, Option.some.injEq] at hu
    exact absurd hu.symm h

theorem inv_insert (hs : s.Inv) (hat : s.at_ t = .idle) (hm : s.mapMutex = some t)
    (hk : s.sockConnMap k = none) : Custody.Inv { s with
      sockConnMap := Function.update s.sockConnMap k (some s.nextConn)
      nextConn := s.nextConn + 1 } := by
  have hfresh : ∀ k', s.sockConnMap k' ≠ some s.nextConn := fun k' h =>
    absurd (hs.mapped k' _ h) (Nat.lt_irrefl _)
  have hmem : ∀ k' c, Function.update s.sockConnMap k (some s.nextConn) k' = some c →
      k' = k ∧ c = s.nextConn ∨ k' ≠ k ∧ s.sockConnMap k' = some c := by
    intro k' c h
    by_cases hkk : k' = k
    · subst hkk
      rw [Function.update_self, Option.some.injEq] at h
      exact .inl ⟨rfl, h.symm⟩
    · rw [Function.update_of_ne hkk] at h
      exact .inr ⟨hkk, h⟩
  refine { hs with
    threads := threads_of_goto (r := .idle) hs ?_ trivial (.inr hm) (fun _ _ _ => id)
      (fun _ => id) fun _ _ _ h => ⟨h, rfl⟩
    unborn := fun c hc => hs.unborn c (Nat.le_of_succ_le hc)
    mapped := fun k' c h => ?_
    inj := fun k₁ k₂ c h₁ h₂ => ?_
    listed := fun k' c h hc => ?_
    unlisted := fun c hc => ?_ }
  · funext u
    by_cases h : u = t
    · rw [h, goto_at_self, hat]
    · rw [goto_at h]
  · rcases hmem k' c h with ⟨-, rfl⟩ | ⟨-, h⟩
    · exact Nat.lt_succ_self _
    · exact Nat.lt_succ_of_lt (hs.mapped k' c h)
  · rcases hmem k₁ c h₁ with ⟨hk₁, hc⟩ | ⟨-, h₁'⟩ <;> rcases hmem k₂ c h₂ with ⟨hk₂, hc'⟩ | ⟨-, h₂'⟩
    · rw [hk₁, hk₂]
    · exact absurd (hc ▸ h₂') (hfresh k₂)
    · exact absurd (hc' ▸ h₁') (hfresh k₁)
    · exact hs.inj k₁ k₂ c h₁' h₂'
  · rcases hmem k' c h with ⟨-, rfl⟩ | ⟨-, h⟩
    · rw [show _ = false from (hs.unborn s.nextConn le_rfl).2.1] at hc
      cases hc
    · exact hs.listed k' c h hc
  · obtain ⟨hlt, hno⟩ := hc
    have hne : c ≠ s.nextConn := by
      rintro rfl
      exact hno k (Function.update_self ..)
    refine hs.unlisted c ⟨lt_of_le_of_ne (Nat.le_of_lt_succ hlt) hne, fun k' h => hno k' ?_⟩
    have hkk : k' ≠ k := by
      rintro rfl
      rw [hk] at h
      cases h
    exact (Function.update_of_ne hkk _ _).trans h

theorem inv_acquired (hs : s.Inv) (hat : s.at_ t = .acquire c) : Custody.Inv { s.goto t .idle with
    mRefCount := Function.update s.mRefCount c (s.mRefCount c + 1), refs := (t, c) :: s.refs } := by
  have ht := hs.threads t
  rw [hat] at ht
  obtain ⟨hm, k, hk⟩ := ht
  have hclean : s.mCleaning c = false := hs.not_cleaning hm hk (by simp [hat]) (by simp [hat])
  have hne : ∀ d, s.mCleaning d = true → d ≠ c := by
    rintro d hd rfl
    rw [hclean] at hd
    cases hd
  have hunref : ∀ d, s.mCleaning d = true → s.Unreferenced d → ∀ u, (u, d) ∉ (t, c) :: s.refs := by
    intro d hd hu u hmem
    rcases List.mem_cons.1 hmem with h | h
    · exact hne d hd (Prod.mk.inj h).2
    · exact hu u h
  refine { hs with
    threads := threads_of_goto hs rfl trivial (.inl ⟨rfl, rfl⟩)
      (fun _ _ _ => List.mem_cons_of_mem _) (fun _ => id)
      fun u d _ h => ⟨⟨h.1, hunref d h.1 h.2.1, h.2.2⟩, rfl⟩
    count := fun d => ?_
    unborn := fun d hd => ?_
    listed := fun k' d h hd => ?_
    torn := fun d hd => ?_
    served := fun d hd hu => ?_ }
  · have := hs.count d
    by_cases h : d = c
    · subst h
      simp [this]
    · simp [h, Ne.symm h, this]
  · obtain ⟨h₁, h₂⟩ := hs.unborn d hd
    have h : d ≠ c := by
      rintro rfl
      exact absurd (hs.mapped k _ hk) (not_lt.2 hd)
    exact ⟨(Function.update_of_ne h _ _).trans h₁, h₂⟩
  · exact exists_removing_goto rfl (by simp [Removing, hat]) (hs.listed k' d h hd)
  · obtain ⟨h₁, h₂, h₃⟩ := hs.torn d hd
    exact ⟨h₁, h₂, hunref d h₂ h₃⟩
  · refine (hs.served d hd fun u h => hu u (.tail _ h)).imp_right fun h => ?_
    exact exists_onDuty_goto rfl (by simp [OnDuty, hat]) h

theorem inv_released (hs : s.Inv) (hat : s.at_ t = .release c) : Custody.Inv { s.goto t
      (if s.mRefCount c - 1 = 0 ∧ s.mCleaning c = true then .cleanup c .release else .idle) with
    mRefCount := Function.update s.mRefCount c (s.mRefCount c - 1)
    refs := s.refs.erase (t, c), lastOut := Function.update s.lastOut c (some t) } := by
  have hmem : (t, c) ∈ s.refs := by
    have ht := hs.threads t
    rwa [hat] at ht
  have hpos : 0 < s.mRefCount c := by
    rw [hs.count, Int.natCast_pos, List.countP_pos_iff]
    exact ⟨_, hmem, by simp⟩
  have hcount : ∀ d, Function.update s.mRefCount c (s.mRefCount c - 1) d
      = (s.refs.erase (t, c)).countP (·.2 = d) := by
    intro d
    have hd := hs.count d
    rw [List.countP_erase]
    by_cases h : d = c
    · subst h
      simp only [Function.update_self, hmem, decide_true, and_self, if_true]
      omega
    · simp [h, Ne.symm h, hd]
  have hheld : ¬ s.Unreferenced c := fun h => h t hmem
  have hkeep : ∀ d, s.Unreferenced d → ∀ u, (u, d) ∉ s.refs.erase (t, c) :=
    fun d h u hu => h u (List.mem_of_mem_erase hu)
  have hunref : ∀ d, d ≠ c → (∀ u, (u, d) ∉ s.refs.erase (t, c)) → s.Unreferenced d := by
    intro d hd h u hu
    exact h u ((List.mem_erase_of_ne (fun he => hd (Prod.mk.inj he).2)).2 hu)
  refine { hs with
    threads := threads_of_goto hs rfl ?_ (.inl ⟨rfl, rfl⟩) ?_ (fun _ => id) ?_
    count := hcount
    unborn := fun d hd => ?_
    listed := fun k d h hd => ?_
    torn := fun d hd => ?_
    served := fun d hd hu => ?_ }
  · split_ifs with h
    · have hnone : ∀ u, (u, c) ∉ s.refs.erase (t, c) := by
        rw [← countP_refs_eq_zero, ← hcount, Function.update_self]
        exact h.1
      have htorn : s.torn c = 0 := by
        by_contra htorn
        exact hheld (hs.torn c htorn).2.2
      have hdel : s.deleted c = false := by
        by_contra hdel
        have := hs.deleted c (by simpa using hdel)
        omega
      exact ⟨⟨h.2, hnone, hdel, Function.update_self ..⟩, htorn⟩
    · trivial
  · intro u d hu h
    exact (List.mem_erase_of_ne (fun he => hu (Prod.mk.inj he).1)).2 h
  · intro u d hu h
    have hd : d ≠ c := by
      rintro rfl
      exact hheld h.2.1
    exact ⟨⟨h.1, hkeep d h.2.1, h.2.2.1, (Function.update_of_ne hd _ _).trans h.2.2.2⟩, rfl⟩
  · obtain ⟨h₁, h₂⟩ := hs.unborn d hd
    have h : d ≠ c := by
      rintro rfl
      rw [h₁] at hpos
      exact absurd hpos (lt_irrefl _)
    exact ⟨(Function.update_of_ne h _ _).trans h₁, h₂⟩
  · exact exists_removing_goto rfl (by simp [Removing, hat]) (hs.listed k d h hd)
  · obtain ⟨h₁, h₂, h₃⟩ := hs.torn d hd
    exact ⟨h₁, h₂, hkeep d h₃⟩
  · by_cases h : d = c
    · subst h
      have hzero : s.mRefCount d - 1 = 0 := by
        have := hcount d
        rwa [Function.update_self, countP_refs_eq_zero.2 hu] at this
      refine .inr ⟨t, .inl ?_⟩
      exact goto_at_self.trans (if_pos ⟨hzero, hd⟩)
    · refine (hs.served d hd (hunref d h hu)).imp_right fun h => ?_
      exact exists_onDuty_goto rfl (by simp [OnDuty, hat]) h

theorem inv_busy {caller : Caller} (hs : s.Inv) (hat : s.at_ t = .cleanup c caller)
    (hpos : 0 < s.mRefCount c) : Custody.Inv { s.goto t caller.next with
      mCleaning := Function.update s.mCleaning c true
      lastOut := Function.update s.lastOut c (some t) } := by
  have hheld : ¬ s.Unreferenced c := fun h => absurd (hs.unreferenced_iff.2 h) (ne_of_gt hpos)
  -- the last reference does not come here, it finds the count at zero
  obtain ⟨k, rfl, hm, hk⟩ : ∃ k, caller = .remove k ∧ s.mapMutex = some t
      ∧ s.sockConnMap k = some c := by
    have ht := hs.threads t
    rw [hat] at ht
    rcases caller with _ | k
    · exact absurd ht.1.2.1 hheld
    · exact ⟨k, rfl, ht⟩
  have hne : ∀ d, s.Unreferenced d → d ≠ c := by
    rintro d hd rfl
    exact hheld hd
  have hclean : ∀ d, s.mCleaning d = true → Function.update s.mCleaning c true d = true :=
    fun _ => cleaning_update
  refine { hs with
    threads := threads_of_goto hs rfl ⟨hm, fun d hd => ?_⟩ (.inr hm) (fun _ _ _ => id) hclean
      fun u d _ h => ⟨⟨hclean d h.1, h.2.1, h.2.2.1, ?_⟩, rfl⟩
    unborn := fun d hd => ?_
    listed := fun k' d h hd => ?_
    unlisted := fun d hd => hclean d (hs.unlisted d hd)
    torn := fun d hd => ?_
    served := fun d hd hu => ?_ }
  · obtain rfl : c = d := Option.some.inj (hk.symm.trans hd)
    exact Function.update_self ..
  · exact (Function.update_of_ne (hne d h.2.1) _ _).trans h.2.2.2
  · obtain ⟨h₁, h₂, h₃⟩ := hs.unborn d hd
    have h : d ≠ c := by
      rintro rfl
      exact absurd (hs.mapped k _ hk) (not_lt.2 hd)
    exact ⟨h₁, (Function.update_of_ne h _ _).trans h₂, h₃⟩
  · by_cases hdc : d = c
    · subst hdc
      exact ⟨t, .inr (hs.inj k k' d hk h ▸ goto_at_self)⟩
    · refine exists_removing_goto rfl (by simp [Removing, hat]) (hs.listed k' d h ?_)
      exact (Function.update_of_ne hdc _ _).symm.trans hd
  · obtain ⟨h₁, h₂, h₃⟩ := hs.torn d hd
    exact ⟨h₁, hclean d h₂, h₃⟩
  · have hd' : s.mCleaning d = true := (Function.update_of_ne (hne d hu) _ _).symm.trans hd
    refine (hs.served d hd' hu).imp_right fun h => ?_
    exact exists_onDuty_goto rfl (by simp [OnDuty, hat]) h

omit [DecidableEq τ] in
/-- The thread that may go on to the teardown finds it not begun, and nobody else on the way. -/
theorem Inv.last (hs : s.Inv) {caller : Caller} (hat : s.at_ t = .cleanup c caller)
    (hc : s.mRefCount c ≤ 0) : s.Unreferenced c ∧ s.torn c = 0 ∧ s.deleted c = false ∧
      c < s.nextConn ∧ ∀ u, u ≠ t → ¬ s.Due u c := by
  have hunref : s.Unreferenced c := hs.unreferenced_iff.1 (le_antisymm hc (hs.refCount_nonneg c))
  have hborn : s.mCleaning c = true → c < s.nextConn := fun h => by
    by_contra hlt
    rw [(hs.unborn c (not_lt.1 hlt)).2.1] at h
    cases h
  have ht := hs.threads t
  rw [hat] at ht
  rcases caller with _ | k
  · obtain ⟨⟨h₁, -, h₃, h₄⟩, h₅⟩ := ht
    refine ⟨hunref, h₅, h₃, hborn h₁, fun u hu hd => hu ?_⟩
    exact Option.some.inj (hd.2.2.2.symm.trans h₄)
  · obtain ⟨hm, hk⟩ := ht
    have hclean : s.mCleaning c = false := hs.not_cleaning hm hk (by simp [hat]) (by simp [hat])
    have htorn : s.torn c = 0 := by
      by_contra h
      rw [(hs.torn c h).2.1] at hclean
      cases hclean
    have hdel : s.deleted c = false := by
      by_contra h
      have := hs.deleted c (by simpa using h)
      omega
    refine ⟨hunref, htorn, hdel, hs.mapped k c hk, fun u _ hd => ?_⟩
    rw [hd.1] at hclean
    cases hclean

theorem inv_last {caller : Caller} (hs : s.Inv) (hat : s.at_ t = .cleanup c caller)
    (hc : s.mRefCount c ≤ 0) : Custody.Inv { s.goto t (.teardown c caller) with
      mCleaning := Function.update s.mCleaning c true
      lastOut := Function.update s.lastOut c (some t)
      torn := Function.update s.torn c (s.torn c + 1) } := by
  obtain ⟨hunref, htorn, hdel, hborn, hdue⟩ := hs.last hat hc
  have hclean : ∀ d, s.mCleaning d = true → Function.update s.mCleaning c true d = true :=
    fun _ => cleaning_update
  have hown : Function.update s.torn c (s.torn c + 1) c = 1 := by rw [Function.update_self, htorn]
  refine { hs with
    threads := threads_of_goto hs rfl ?_ (.inl ⟨rfl, rfl⟩) (fun _ _ _ => id) hclean ?_
    unborn := fun d hd => ?_
    listed := fun k d h hd => ?_
    unlisted := fun d hd => hclean d (hs.unlisted d hd)
    torn := fun d hd => ?_
    deleted := fun d hd => ?_
    served := fun d hd hu => ?_ }
  · have ht := hs.threads t
    rw [hat] at ht
    have hmine : Custody.Due { s.goto t (.teardown c caller) with
        mCleaning := Function.update s.mCleaning c true
        lastOut := Function.update s.lastOut c (some t)
        torn := Function.update s.torn c (s.torn c + 1) } t c :=
      ⟨Function.update_self .., hunref, hdel, Function.update_self ..⟩
    rcases caller with _ | k
    · exact ⟨hmine, hown⟩
    · exact ⟨hmine, hown, ht⟩
  · intro u d hu h
    have hd : d ≠ c := by
      rintro rfl
      exact hdue u hu h
    exact ⟨⟨hclean d h.1, h.2.1, h.2.2.1, (Function.update_of_ne hd _ _).trans h.2.2.2⟩,
      Function.update_of_ne hd _ _⟩
  · obtain ⟨h₁, h₂, h₃, h₄⟩ := hs.unborn d hd
    have h : d ≠ c := by
      rintro rfl
      exact absurd hborn (not_lt.2 hd)
    exact ⟨h₁, (Function.update_of_ne h _ _).trans h₂, (Function.update_of_ne h _ _).trans h₃, h₄⟩
  · by_cases hdc : d = c
    · subst hdc
      have ht := hs.threads t
      rw [hat] at ht
      rcases caller with _ | k'
      · exact exists_removing_goto rfl (by simp [Removing, hat]) (hs.listed k d h ht.1.1)
      · exact ⟨t, .inl (hs.inj k' k d ht.2 h ▸ goto_at_self)⟩
    · refine exists_removing_goto rfl (by simp [Removing, hat]) (hs.listed k d h ?_)
      exact (Function.update_of_ne hdc _ _).symm.trans hd
  · by_cases hdc : d = c
    · subst hdc
      exact ⟨hown, Function.update_self .., hunref⟩
    · obtain ⟨h₁, h₂, h₃⟩ := hs.torn d ((Function.update_of_ne hdc _ _).symm.trans_ne hd)
      exact ⟨(Function.update_of_ne hdc _ _).trans h₁, hclean d h₂, h₃⟩
  · have hdc : d ≠ c := by
      rintro rfl
      rw [show s.deleted d = true from hd] at hdel
      cases hdel
    exact (Function.update_of_ne hdc _ _).trans (hs.deleted d hd)
  · by_cases hdc : d = c
    · subst hdc
      exact .inr ⟨t, .inr ⟨caller, goto_at_self⟩⟩
    · refine (hs.served d ((Function.update_of_ne hdc _ _).symm.trans hd) hu).imp_right fun h => ?_
      exact exists_onDuty_goto rfl (by simp [OnDuty, hat, Ne.symm hdc]) h

theorem inv_done {caller : Caller} (hs : s.Inv) (hat : s.at_ t = .teardown c caller) :
    Custody.Inv { s.goto t caller.next with deleted := Function.update s.deleted c true } := by
  obtain ⟨hcl, hunref, hdel, hout⟩ := hs.due (.inr ⟨caller, hat⟩)
  have ht := hs.threads t
  rw [hat] at ht
  have htorn : s.torn c = 1 := by
    rcases caller with _ | k
    · exact ht.2
    · exact ht.2.1
  refine { hs with
    threads := threads_of_goto hs rfl ?_ (.inl ⟨rfl, rfl⟩) (fun _ _ _ => id) (fun _ => id) ?_
    unborn := fun d hd => ?_
    listed := fun k d h hd => ?_
    deleted := fun d hd => ?_
    served := fun d hd hu => ?_ }
  · rcases caller with _ | k
    · trivial
    · obtain ⟨-, -, hm, hk⟩ := ht
      refine ⟨hm, fun d hd => ?_⟩
      obtain rfl : c = d := Option.some.inj (hk.symm.trans hd)
      exact hcl
  · intro u d hu h
    have hd : d ≠ c := by
      rintro rfl
      exact hu (Option.some.inj (h.2.2.2.symm.trans hout))
    exact ⟨⟨h.1, h.2.1, (Function.update_of_ne hd _ _).trans h.2.2.1, h.2.2.2⟩, rfl⟩
  · obtain ⟨h₁, h₂, h₃, h₄⟩ := hs.unborn d hd
    have h : d ≠ c := by
      rintro rfl
      rw [h₂] at hcl
      cases hcl
    exact ⟨h₁, h₂, h₃, (Function.update_of_ne h _ _).trans h₄⟩
  · by_cases hdc : caller = .remove k
    · subst hdc
      exact ⟨t, .inr goto_at_self⟩
    · refine exists_removing_goto rfl ?_ (hs.listed k d h hd)
      simp [Removing, hat, hdc]
  · by_cases hdc : d = c
    · rw [hdc]
      exact htorn
    · exact hs.deleted d ((Function.update_of_ne hdc _ _).symm.trans hd)
  · by_cases hdc : d = c
    · subst hdc
      exact .inl (Function.update_self ..)
    · rcases hs.served d hd hu with h | h
      · exact .inl ((Function.update_of_ne hdc _ _).trans h)
      · exact .inr (exists_onDuty_goto rfl (by simp [OnDuty, hat, Ne.symm hdc]) h)

theorem inv_erased (hs : s.Inv) (hat : s.at_ t = .erase k) :
    Custody.Inv { s.goto t .idle with sockConnMap := Function.update s.sockConnMap k none } := by
  have ht := hs.threads t
  rw [hat] at ht
  obtain ⟨hm, hk⟩ := ht
  have hof : ∀ k' d, Function.update s.sockConnMap k none k' = some d →
      k' ≠ k ∧ s.sockConnMap k' = some d := by
    intro k' d h
    by_cases hkk : k' = k
    · rw [hkk, Function.update_self] at h
      cases h
    · exact ⟨hkk, (Function.update_of_ne hkk _ _).symm.trans h⟩
  refine { hs with
    threads := threads_of_goto hs rfl trivial (.inr hm) (fun _ _ _ => id) (fun _ => id)
      fun _ _ _ h => ⟨h, rfl⟩
    mapped := fun k' d h => hs.mapped k' d (hof k' d h).2
    inj := fun k₁ k₂ d h₁ h₂ => hs.inj k₁ k₂ d (hof k₁ d h₁).2 (hof k₂ d h₂).2
    listed := fun k' d h hd => ?_
    unlisted := fun d hd => ?_
    served := fun d hd hu => ?_ }
  · obtain ⟨hkk, h⟩ := hof k' d h
    exact exists_removing_goto rfl (by simp [Removing, hat, Ne.symm hkk]) (hs.listed k' d h hd)
  · by_cases hkd : s.sockConnMap k = some d
    · exact hk d hkd
    · refine hs.unlisted d ⟨hd.1, fun k' h => hd.2 k' ?_⟩
      have hkk : k' ≠ k := by
        rintro rfl
        exact hkd h
      exact (Function.update_of_ne hkk _ _).trans h
  · exact (hs.served d hd hu).imp_right fun h => exists_onDuty_goto rfl (by simp [OnDuty, hat]) h

theorem inv_of_moves (hs : s.Inv) (h : s.Moves t s') : s'.Inv := by
  cases h with
  | stay => exact hs
  | lockMap _ hm => exact inv_lockMap hs hm
  | unlockMap hat hm => exact inv_unlockMap hs hat hm
  | find hat hm hk => exact inv_enter hs hat ⟨hm, _, hk⟩
  | insert hat hm hk => exact inv_insert hs hat hm hk
  | remove hat hm hk => exact inv_enter hs hat ⟨hm, hk⟩
  | release hat hr => exact inv_enter hs hat hr
  | acquired hat => exact inv_acquired hs hat
  | released hat => exact inv_released hs hat
  | busy hat hc => exact inv_busy hs hat hc
  | last hat hc => exact inv_last hs hat hc
  | done hat => exact inv_done hs hat
  | erased hat => exact inv_erased hs hat

end Custody

end Longda
