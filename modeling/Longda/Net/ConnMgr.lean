import Longda.Lib.Machine
import Longda.Net.Cleanup
import Mathlib.Data.List.Basic

/-!
# Threads at the connection manager

`mgr` is the machine of any number of threads that look connections up, give references back and
remove connections. A step is one thread getting a mutex, or passing through what it does under
one; a thread that would have to wait is refused. What a thread does under the `mMutex` of a
connection is what `acquire`, `release` and `cleanup` do there (`ends_acquire`, `ends_release`,
`ends_cleanup`).

`refs`, `lastOut` and `torn` record the run: who has references, who gave up the connection last,
and how often its teardown was entered.
-/

namespace Longda

open Lib

abbrev ConnId := ℕ

/-- The members of `Conn` that its `mMutex` guards. -/
structure ConnRefs where
  mRefCount : ℤ := 0
  mCleaning : Bool := false
  mCleanType : CleanupT := .ON_CLEANUP
  deriving DecidableEq

namespace ConnRefs

/-- `acquire` under the mutex. -/
def acquire (r : ConnRefs) : ConnRefs := { r with mRefCount := r.mRefCount + 1 }

/-- `release` under the mutex, with `callCleanup`. -/
def release (r : ConnRefs) : Bool × ConnRefs :=
  (r.mRefCount - 1 == 0 && r.mCleaning, { r with mRefCount := r.mRefCount - 1 })

/-- `cleanup` under the mutex, and whether it goes on to the teardown. -/
def cleanup (how : CleanupT) (r : ConnRefs) : Bool × ConnRefs :=
  if r.mRefCount > 0 then (false, { r with mCleaning := true, mCleanType := how })
  else (true, { r with mCleaning := true })

end ConnRefs

section Sections

variable {env : Env} {files : Files} {l : Link}

def Link.refs (l : Link) : ConnRefs := ⟨l.mRefCount, l.mCleaning, l.mCleanType⟩

def Link.withRefs (l : Link) (r : ConnRefs) : Link :=
  { l with mRefCount := r.mRefCount, mCleaning := r.mCleaning, mCleanType := r.mCleanType }

theorem ends_acquire (hf : l.held .mMutex = false) {Q : Unit → Link → Prop}
    {R : Fault → Link → Prop} :
    Ends acquire l Q R ↔ Q () (l.withRefs l.refs.acquire) := by
  simp only [acquire, ends_bind, ends_lock, hf, Bool.false_eq_true, if_false, ends_modify,
    ends_unlock, Function.update_self, if_true, update_free hf]
  rfl

theorem ends_release (hf : l.held .mMutex = false) {Q : Unit → Link → Prop}
    {R : Fault → Link → Prop} :
    Ends (release env files) l Q R ↔
      if l.refs.release.1 then
        Ends (cleanup env files l.refs.release.2.mCleanType) (l.withRefs l.refs.release.2)
          (fun _ => Q ()) R
      else Q () (l.withRefs l.refs.release.2) := by
  simp only [release, ends_bind, ends_lock, hf, Bool.false_eq_true, if_false, ends_modify,
    ends_get, ends_ite, ends_unlock, Function.update_self, if_true, update_free hf,
    ends_pure]
  rfl

theorem ends_cleanup (how : CleanupT) (hf : l.held .mMutex = false)
    {Q : ConnStatus → Link → Prop} {R : Fault → Link → Prop} :
    Ends (cleanup env files how) l Q R ↔
      if (l.refs.cleanup how).1 then
        Ends (teardown env files how) (l.withRefs (l.refs.cleanup how).2) (fun _ => Q .SUCCESS) R
      else Q .CONN_ERR_BUSY (l.withRefs (l.refs.cleanup how).2) := by
  simp only [cleanup, ends_bind, ends_lock, hf, Bool.false_eq_true, if_false, ends_modify,
    ends_get, ends_ite, ends_unlock, Function.update_self, if_true, update_free hf,
    ends_pure]
  by_cases h : l.mRefCount > 0
  · simp [h, Link.refs, Link.withRefs, ConnRefs.cleanup]
  · simp [h, Link.refs, Link.withRefs, ConnRefs.cleanup]

end Sections

/-! ## The machine -/

/-- Who called `cleanup`. -/
inductive Caller where
  | release
  | remove (sock : Int32)
  deriving DecidableEq

/-- Where a thread is. It is about to lock the `mMutex` of the connection, or has it (`In`). -/
inductive Pc where
  | idle
  | acquire (conn : ConnId)
  | acquireIn (conn : ConnId)
  | release (conn : ConnId)
  | releaseIn (conn : ConnId)
  | cleanup (conn : ConnId) (how : CleanupT) (caller : Caller)
  | cleanupIn (conn : ConnId) (how : CleanupT) (caller : Caller)
  /-- Flushing the queues, `connCallback(ON_DISCONNECT)`, `close` and `delete this`. -/
  | teardown (conn : ConnId) (caller : Caller)
  /-- `sockConnMap.erase` in `ConnMgr::remove`. -/
  | erase (sock : Int32)
  deriving DecidableEq

/-- Where `cleanup` returns to. -/
def Caller.after : Caller → Pc
  | .release => .idle
  | .remove sock => .erase sock

/-- What a thread does next: it takes or gives back `mapMutex`, enters a routine, or goes on. -/
inductive MgrAct where
  | lockMap
  | unlockMap
  | find (sock : Int32)
  | insert (sock : Int32)
  | remove (sock : Int32)
  | release (conn : ConnId)
  | goOn
  deriving DecidableEq

structure Mgr (τ : Type) where
  sockConnMap : Int32 → Option ConnId := fun _ => none
  conns : ConnId → ConnRefs := fun _ => {}
  nextConn : ConnId := 0
  mapMutex : Option τ := none
  mMutex : ConnId → Option τ := fun _ => none
  pc : τ → Pc := fun _ => .idle
  refs : List (τ × ConnId) := []
  lastOut : ConnId → Option τ := fun _ => none
  torn : ConnId → ℕ := fun _ => 0
  deleted : ConnId → Bool := fun _ => false

variable {τ : Type} [DecidableEq τ]

instance : LawfulBEq (τ × ConnId) := inferInstance

namespace Mgr

def goto (s : Mgr τ) (t : τ) (pc : Pc) : Mgr τ := { s with pc := Function.update s.pc t pc }

/-- The thread gets the mutex of the connection, or is refused. -/
def lockConn (s : Mgr τ) (t : τ) (c : ConnId) (pc : Pc) : Option (Mgr τ) :=
  if s.mMutex c = none then
    some { s.goto t pc with mMutex := Function.update s.mMutex c (some t) }
  else none

/-- The thread leaves the mutex of the connection, with its members changed. -/
def leaveConn (s : Mgr τ) (t : τ) (c : ConnId) (r : ConnRefs) (pc : Pc) : Mgr τ :=
  { s.goto t pc with
    conns := Function.update s.conns c r, mMutex := Function.update s.mMutex c none }

/-- A routine that is entered between two others. -/
def enter (s : Mgr τ) (t : τ) : MgrAct → Option (Mgr τ)
  | .lockMap => if s.mapMutex = none then some { s with mapMutex := some t } else none
  | .unlockMap => if s.mapMutex = some t then some { s with mapMutex := none } else none
  | .find sock =>
    if s.mapMutex = some t then
      match s.sockConnMap sock with
      | none => some s
      | some c => some (s.goto t (.acquire c))
    else none
  | .insert sock =>
    if s.mapMutex = some t ∧ s.sockConnMap sock = none then
      some { s with
        sockConnMap := Function.update s.sockConnMap sock (some s.nextConn)
        nextConn := s.nextConn + 1 }
    else none
  | .remove sock =>
    if s.mapMutex = some t then
      match s.sockConnMap sock with
      | none => some s
      | some c => some (s.goto t (.cleanup c .ON_ERROR (.remove sock)))
    else none
  | .release c => if (t, c) ∈ s.refs then some (s.goto t (.release c)) else none
  | .goOn => none

/-- The next step of the routine the thread is in. -/
def goOn (s : Mgr τ) (t : τ) : Pc → Option (Mgr τ)
  | .idle => none
  | .acquire c => s.lockConn t c (.acquireIn c)
  | .acquireIn c =>
    some { s.leaveConn t c (s.conns c).acquire .idle with refs := (t, c) :: s.refs }
  | .release c => s.lockConn t c (.releaseIn c)
  | .releaseIn c =>
    let (callCleanup, r) := (s.conns c).release
    some { s.leaveConn t c r (if callCleanup then .cleanup c r.mCleanType .release else .idle) with
      refs := s.refs.erase (t, c), lastOut := Function.update s.lastOut c (some t) }
  | .cleanup c how caller => s.lockConn t c (.cleanupIn c how caller)
  | .cleanupIn c how caller =>
    let (unused, r) := (s.conns c).cleanup how
    let s := { s with lastOut := Function.update s.lastOut c (some t) }
    if unused then
      some { s.leaveConn t c r (.teardown c caller) with
        torn := Function.update s.torn c (s.torn c + 1) }
    else some (s.leaveConn t c r caller.after)
  | .teardown c caller =>
    some { s.goto t caller.after with deleted := Function.update s.deleted c true }
  | .erase sock =>
    some { s.goto t .idle with sockConnMap := Function.update s.sockConnMap sock none }

end Mgr

/-- The threads at one connection manager. -/
def mgr (τ : Type) [DecidableEq τ] : Machine (Mgr τ) (τ × MgrAct) where
  step s l :=
    if s.pc l.1 = .idle then s.enter l.1 l.2
    else if l.2 = .goOn then s.goOn l.1 (s.pc l.1)
    else none

end Longda
