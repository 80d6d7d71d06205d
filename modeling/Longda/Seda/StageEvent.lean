import Longda.Lib.LinkedStack

/-!
# The callbacks of a stage event

An event keeps its callbacks in a stack that is threaded through them. `done` has the callback on
top queued for its stage, `doneImmediate` takes it off, runs its handler and deletes it when the
handler returns, and where no callback is left both delete the event. A handler may push more
callbacks before it calls one of the two, and other threads go on with the event while it returns.

What `pushCallback` asserts, that the callback has no next one, does not tell a callback that is
at the bottom of the stack, or one whose handler is running, from a new one. Runs in which neither
is pushed, and only those, keep the stack a stack of live callbacks that nobody else will delete,
run them last in first out and delete the event after the last (`sound_iff_fresh`).
-/

namespace Longda

/-- What the stack needs of a `CompletionCallback`. -/
structure CompletionCallback (Cb : Type*) where
  nextCb : Option Cb
  deriving DecidableEq

namespace CompletionCallback
variable {Cb : Type*} [DecidableEq Cb]

/-- The constructor. -/
def new : CompletionCallback Cb := { nextCb := none }

/-- `none` where the assertion fails. -/
def pushCallback (cb : CompletionCallback Cb) (next : Option Cb) :
    Option (CompletionCallback Cb) :=
  if cb.nextCb = none then some { cb with nextCb := next } else none

/-- The rest of the stack, and the callback without it. -/
def popCallback (cb : CompletionCallback Cb) : Option Cb × CompletionCallback Cb :=
  (cb.nextCb, { cb with nextCb := none })

end CompletionCallback

structure StageEvent (Cb : Type*) where
  compCB : Option Cb
  cbFlag : Bool

/-- Where a handler is: before its call of `done` or `doneImmediate`, in one that runs the handler
with the number, after one that runs none, or returned. -/
inductive Callbacks.Phase
  | running
  | calling (h : ℕ)
  | returning
  | returned
  deriving DecidableEq

/-- A handler that has been started, and the callback it is of: none for the code in which the event
starts. -/
structure Callbacks.Handler (Cb : Type*) where
  callback : Option Cb
  phase : Callbacks.Phase
  deriving DecidableEq

/-- An event and the callbacks that may be pushed on it, each there until it is deleted; how often
the event is in a stage's queue; and the handlers started so far, by their number. -/
structure Callbacks (Cb : Type*) where
  heap : Cb → Option (CompletionCallback Cb)
  event : StageEvent Cb
  queued : ℕ
  handlers : ℕ → Option (Callbacks.Handler Cb)
  started : ℕ
  log : List (Lib.Deed Cb)

namespace Callbacks
variable {Cb : Type*}

section
variable [DecidableEq Cb]

def start : Callbacks Cb where
  heap := fun _ => some .new
  event := { compCB := none, cbFlag := false }
  queued := 0
  handlers := fun h => if h = 0 then some { callback := none, phase := .running } else none
  started := 1
  log := []

/-- `StageEvent::pushCallback`. -/
def pushCallback (s : Callbacks Cb) (c : Cb) : Option (Callbacks Cb) :=
  (s.heap c).bind fun cb => (cb.pushCallback s.event.compCB).map fun cb' =>
    { s with
      heap := Function.update s.heap c (some cb')
      event := { s.event with compCB := some c }
      log := s.log ++ [.put c] }

/-- `delete this`, with no callback left for the destructor to clear. -/
def deleteEvent (s : Callbacks Cb) : Callbacks Cb := { s with log := s.log ++ [.closed] }

/-- `StageEvent::done`: the event is marked, and queued for the stage of the callback on top. -/
def done (s : Callbacks Cb) : Option (Callbacks Cb) :=
  match s.event.compCB with
  | some top => (s.heap top).map fun _ =>
    { s with event := { s.event with cbFlag := true }, queued := s.queued + 1 }
  | none => some s.deleteEvent

/-- `CompletionCallback::eventDone`, up to where the handler of the callback is entered. -/
def eventDone (s : Callbacks Cb) (top : Cb) : Callbacks Cb :=
  { s with
    handlers := Function.update s.handlers s.started
      (some { callback := some top, phase := .running })
    started := s.started + 1
    log := s.log ++ [.took top] }

/-- `StageEvent::doneImmediate`, up to where the handler of the callback on top is started. -/
def doneImmediate (s : Callbacks Cb) : Option (Callbacks Cb) :=
  match s.event.compCB with
  | some top => (s.heap top).map fun cb =>
    { s with
      heap := Function.update s.heap top (some cb.popCallback.2)
      event := { compCB := cb.popCallback.1, cbFlag := false } }.eventDone top
  | none => some s.deleteEvent

def setPhase (s : Callbacks Cb) (h : ℕ) (p : Phase) : Callbacks Cb :=
  { s with handlers := Function.update s.handlers h ((s.handlers h).map ({ · with phase := p })) }

/-- `~CompletionCallback`: the next callback is deleted as well. There are no more of them than have
been pushed. -/
def delete (heap : Cb → Option (CompletionCallback Cb)) :
    ℕ → Cb → Option (Cb → Option (CompletionCallback Cb))
  | 0, _ => none
  | n + 1, c => (heap c).bind fun cb =>
    match cb.nextCb with
    | none => some (Function.update heap c none)
    | some next => delete (Function.update heap c none) n next

def phase (s : Callbacks Cb) (h : ℕ) : Option Phase := (s.handlers h).map (·.phase)

/-- Its call of `done` or `doneImmediate` has come back. -/
def mayReturn (s : Callbacks Cb) (h : ℕ) : Bool :=
  match s.phase h with
  | some (.calling k) => s.phase k = some .returned
  | p => p = some .returning

/-- What follows the handler in `doneImmediate`: `delete top`. -/
def deleteTop (s : Callbacks Cb) (h : ℕ) : Option (Callbacks Cb) :=
  match (s.handlers h).bind (·.callback) with
  | some top => (delete s.heap (s.log.length + 1) top).map fun heap => { s with heap := heap }
  | none => some s

inductive Label (Cb : Type*)
  | push (h : ℕ) (c : Cb)
  | done (h : ℕ)
  | doneImmediate (h : ℕ)
  /-- A thread of the pool takes the event from a stage's queue. -/
  | dispatch
  | finish (h : ℕ)

/-- A step is refused where the assertion fails, where it is not that handler's turn, and where
something would be touched that has been deleted. -/
def machine : Lib.Machine (Callbacks Cb) (Label Cb) where
  step := fun s l =>
    match l with
    | .push h c => if s.phase h = some .running then s.pushCallback c else none
    | .done h => if s.phase h = some .running then (s.setPhase h .returning).done else none
    | .doneImmediate h =>
      if s.phase h = some .running then
        (s.setPhase h
          (if s.event.compCB = none then .returning else .calling s.started)).doneImmediate
      else none
    | .dispatch =>
      if s.queued ≠ 0 ∧ s.event.cbFlag then
        { s with queued := s.queued - 1 }.doneImmediate
      else none
    | .finish h => if s.mayReturn h then (s.setPhase h .returned).deleteTop h else none

/-- The callback of the handler is still to be deleted. -/
def Entered (s : Callbacks Cb) (h : ℕ) (c : Cb) : Prop :=
  (s.handlers h).bind (·.callback) = some c ∧ s.phase h ≠ some .returned

instance (s : Callbacks Cb) (h : ℕ) (c : Cb) : Decidable (s.Entered h c) :=
  inferInstanceAs (Decidable (_ ∧ _))

def next (s : Callbacks Cb) (c : Cb) : Option Cb := (s.heap c).bind (·.nextCb)

/-- What has been pushed and has not been run. -/
def pending (s : Callbacks Cb) : List Cb := ((Lib.Lifo.replay s.log).map (·.1)).getD []

/-- What is pushed waits neither for its handler to be started nor for it to return. -/
def Fresh (s : Callbacks Cb) : Label Cb → Prop
  | .push _ c => c ∉ s.pending ∧ ∀ h < s.started, ¬ s.Entered h c
  | _ => True

instance (s : Callbacks Cb) : (l : Label Cb) → Decidable (s.Fresh l)
  | .push _ _ => inferInstanceAs (Decidable (_ ∧ _))
  | .done _ | .doneImmediate _ | .dispatch | .finish _ => inferInstanceAs (Decidable True)

end

/-- The event leads along callbacks that are there and that no handler deletes when it returns. -/
structure Linked (s : Callbacks Cb) (l : List Cb) : Prop where
  stack : Lib.IsStack s.next s.event.compCB l
  there : ∀ c ∈ l, s.heap c ≠ none
  apart : ∀ c ∈ l, ∀ h < s.started, ¬ s.Entered h c

/-- What was pushed, run and deleted so far is the log of a stack, in which what is run is what was
pushed last; it is the stack of the event; and an event that is not deleted is with a handler, or in
a queue and marked as a callback. -/
def Sound [DecidableEq Cb] (s : Callbacks Cb) : Prop :=
  ∃ l gone, Lib.Lifo.replay s.log = some (l, gone) ∧ s.Linked l ∧
    (gone = false → (s.queued ≠ 0 ∧ s.event.cbFlag) ∨ ∃ h, s.phase h = some .running)

/-- Each callback has been run as often as it has been pushed, but for those on the stack, and where
the event has been deleted it was once, at the end and with no callback left. -/
theorem Sound.accounts [DecidableEq Cb] {s : Callbacks Cb} (h : s.Sound) :
    ∃ u, Lib.Lifo.Accounts s.log u ∧ s.Linked u.1 := by
  obtain ⟨l, gone, hr, hl, -⟩ := h
  exact ⟨_, Lib.Lifo.accounts_of_replay hr, hl⟩

/-- Of handlers, queues, the deleted event and the calls that are under way, one has the event. -/
structure Tidy (s : Callbacks Cb) (l : List Cb) (gone : Bool) (calls : ℕ) : Prop where
  bound : ∀ h, s.started ≤ h → s.handlers h = none
  idle : ∀ c ∉ l, s.next c = none
  live : ∀ h c, s.Entered h c → s.heap c ≠ none
  alone : ∀ h k c, s.Entered h c → s.Entered k c → h = k
  marked : s.queued ≠ 0 → s.event.cbFlag
  owner : ∃ holder : Option ℕ, (∀ h, s.phase h = some .running ↔ holder = some h) ∧
    s.queued + holder.toList.length + gone.toNat + calls = 1

variable {s t : Callbacks Cb} {l : List Cb} {gone : Bool} {n h k : ℕ} {c : Cb} {p : Phase}

theorem Tidy.lt_started (hs : s.Tidy l gone n) (hh : s.handlers h ≠ none) : h < s.started := by
  by_contra hlt
  exact hh (hs.bound h (Nat.not_lt.1 hlt))

theorem Entered.lt_started (he : s.Entered h c) (hs : s.Tidy l gone n) : h < s.started := by
  refine hs.lt_started fun hn => ?_
  rw [Entered, hn] at he
  cases he.1

/-! ### The turn of a handler -/

section setPhase

@[simp] theorem setPhase_heap : (s.setPhase h p).heap = s.heap := rfl
@[simp] theorem setPhase_event : (s.setPhase h p).event = s.event := rfl
@[simp] theorem setPhase_queued : (s.setPhase h p).queued = s.queued := rfl
@[simp] theorem setPhase_started : (s.setPhase h p).started = s.started := rfl
@[simp] theorem setPhase_log : (s.setPhase h p).log = s.log := rfl
@[simp] theorem setPhase_next : (s.setPhase h p).next = s.next := rfl

theorem setPhase_handlers_self :
    (s.setPhase h p).handlers h = (s.handlers h).map ({ · with phase := p }) :=
  Function.update_self ..

theorem setPhase_handlers_of_ne (hk : k ≠ h) : (s.setPhase h p).handlers k = s.handlers k :=
  Function.update_of_ne hk ..

theorem phase_setPhase_self (hh : s.phase h ≠ none) : (s.setPhase h p).phase h = some p := by
  unfold phase at *
  rw [setPhase_handlers_self]
  rcases hx : s.handlers h with _ | x
  · rw [hx] at hh
    exact absurd rfl hh
  · rfl

theorem phase_setPhase_of_ne (hk : k ≠ h) : (s.setPhase h p).phase k = s.phase k := by
  unfold phase
  rw [setPhase_handlers_of_ne hk]

theorem callback_setPhase :
    ((s.setPhase h p).handlers k).bind (·.callback) = (s.handlers k).bind (·.callback) := by
  rcases eq_or_ne k h with rfl | hk
  · rw [setPhase_handlers_self]
    rcases s.handlers k with _ | x <;> rfl
  · rw [setPhase_handlers_of_ne hk]

theorem Entered.of_setPhase (he : (s.setPhase h p).Entered k c) (hh : s.phase h ≠ some .returned) :
    s.Entered k c := by
  refine ⟨callback_setPhase.symm.trans he.1, ?_⟩
  rcases eq_or_ne k h with rfl | hk
  · exact hh
  · rw [← phase_setPhase_of_ne hk]
    exact he.2

theorem setPhase_handlers_of_none (hk : s.handlers k = none) :
    (s.setPhase h p).handlers k = none := by
  rcases eq_or_ne k h with rfl | hne
  · rw [setPhase_handlers_self, hk]
    rfl
  · rw [setPhase_handlers_of_ne hne, hk]

end setPhase

theorem Linked.setPhase (hs : s.Linked l) (hh : s.phase h ≠ some .returned) :
    (s.setPhase h p).Linked l where
  stack := hs.stack
  there := hs.there
  apart := fun c hc k hk he => hs.apart c hc k hk (he.of_setPhase hh)

theorem Tidy.setPhase_of_owner {m : ℕ} (hs : s.Tidy l gone n) (hh : s.phase h ≠ some .returned)
    (howner : ∃ holder : Option ℕ,
      (∀ k, (s.setPhase h p).phase k = some .running ↔ holder = some k) ∧
        s.queued + holder.toList.length + gone.toNat + m = 1) :
    (s.setPhase h p).Tidy l gone m where
  bound := fun k hk => setPhase_handlers_of_none (hs.bound k hk)
  idle := hs.idle
  live := fun k c he => hs.live k c (he.of_setPhase hh)
  alone := fun j k c hj hk => hs.alone j k c (hj.of_setPhase hh) (hk.of_setPhase hh)
  marked := hs.marked
  owner := howner

/-- A handler that has its turn gives the event to the call it makes. -/
theorem Tidy.call (hs : s.Tidy l gone n) (hh : s.phase h = some .running) (hp : p ≠ .running) :
    (s.setPhase h p).Tidy l gone (n + 1) := by
  obtain ⟨holder, hrun, hsum⟩ := hs.owner
  obtain rfl := (hrun h).1 hh
  refine hs.setPhase_of_owner (by simp [hh]) ⟨none, fun k => ?_, ?_⟩
  · rcases eq_or_ne k h with rfl | hk
    · simpa [phase_setPhase_self (s := s) (h := k) (p := p) (by simp [hh])] using hp
    · rw [phase_setPhase_of_ne hk, hrun]
      simpa using hk.symm
  · simp only [Option.toList_some, Option.toList_none, List.length_singleton,
      List.length_nil] at hsum ⊢
    omega

/-- A handler that returns has had its turn. -/
theorem Tidy.return (hs : s.Tidy l gone n) (hr : s.phase h ≠ some .running)
    (hh : s.phase h ≠ some .returned) (hn : s.phase h ≠ none) :
    (s.setPhase h .returned).Tidy l gone n := by
  obtain ⟨holder, hrun, hsum⟩ := hs.owner
  refine hs.setPhase_of_owner hh ⟨holder, fun k => ?_, hsum⟩
  rcases eq_or_ne k h with rfl | hk
  · rw [phase_setPhase_self hn, ← hrun]
    simpa using hr
  · rw [phase_setPhase_of_ne hk, hrun]

/-! ### The calls -/

theorem next_update [DecidableEq Cb] (heap : Cb → Option (CompletionCallback Cb)) (c : Cb)
    (x : Option (CompletionCallback Cb)) :
    (fun d => (Function.update heap c x d).bind (·.nextCb)) =
      Function.update (fun d => (heap d).bind (·.nextCb)) c (x.bind (·.nextCb)) := by
  funext d
  rcases eq_or_ne d c with rfl | hd
  · simp only [Function.update_self]
  · simp only [Function.update_of_ne hd]

theorem handlers_eventDone_self : (s.eventDone c).handlers s.started =
    some { callback := some c, phase := .running } :=
  Function.update_self ..

theorem handlers_eventDone_of_ne (hh : h ≠ s.started) :
    (s.eventDone c).handlers h = s.handlers h :=
  Function.update_of_ne hh ..

theorem phase_eventDone_of_ne (hh : h ≠ s.started) :
    (s.eventDone c).phase h = s.phase h := by
  unfold phase
  rw [handlers_eventDone_of_ne hh]

theorem entered_eventDone {d : Cb} (he : (s.eventDone c).Entered h d) :
    (h = s.started ∧ d = c) ∨ s.Entered h d := by
  rcases eq_or_ne h s.started with rfl | hh
  · unfold Entered at he
    rw [handlers_eventDone_self] at he
    exact .inl ⟨rfl, (Option.some.inj he.1).symm⟩
  · right
    unfold Entered at he
    rwa [handlers_eventDone_of_ne hh, phase_eventDone_of_ne hh] at he

theorem update_ne_none [DecidableEq Cb] {heap : Cb → Option (CompletionCallback Cb)} {d : Cb}
    {cb : CompletionCallback Cb} (hc : heap c ≠ none) :
    Function.update heap d (some cb) c ≠ none := by
  rcases eq_or_ne c d with rfl | hne
  · simp
  · rwa [Function.update_of_ne hne]

/-- The stack of the event is that of the log, and `calls` calls have the event. -/
structure Good [DecidableEq Cb] (s : Callbacks Cb) (l : List Cb) (gone : Bool) (calls : ℕ) :
    Prop where
  history : Lib.Lifo.replay s.log = some (l, gone)
  linked : s.Linked l
  tidy : s.Tidy l gone calls

theorem Tidy.calling (hs : s.Tidy l gone 1) :
    gone = false ∧ s.queued = 0 ∧ ∀ h, s.phase h ≠ some .running := by
  obtain ⟨holder, hrun, hsum⟩ := hs.owner
  rcases holder with _ | h
  · refine ⟨?_, by omega, fun h hh => by simpa using (hrun h).1 hh⟩
    rcases gone
    · rfl
    · simp at hsum
  · simp at hsum

theorem Tidy.alive (hs : s.Tidy l gone n) (hh : s.phase h = some .running) :
    gone = false ∧ n = 0 := by
  obtain ⟨holder, hrun, hsum⟩ := hs.owner
  obtain rfl := (hrun h).1 hh
  rw [Option.toList_some, List.length_singleton] at hsum
  rcases gone
  · exact ⟨rfl, by omega⟩
  · rw [Bool.toNat_true] at hsum
    omega

section
variable [DecidableEq Cb]

theorem Good.call (hs : s.Good l gone 0) (hh : s.phase h = some .running) (hp : p ≠ .running) :
    (s.setPhase h p).Good l gone 1 where
  history := hs.history
  linked := hs.linked.setPhase (by simp [hh])
  tidy := hs.tidy.call hh hp

theorem Good.deleteEvent (hs : s.Good l gone 1) (hl : s.event.compCB = none) :
    ∃ m b, s.deleteEvent.Good m b 0 := by
  obtain ⟨hlog, hlink, htidy⟩ := hs
  obtain ⟨rfl, hq, hrun⟩ := htidy.calling
  have hstack := hlink.stack
  rw [hl, Lib.isStack_none] at hstack
  subst hstack
  refine ⟨[], true, ?_, { hlink with }, { htidy with owner := ⟨none, ?_, ?_⟩ }⟩
  · unfold deleteEvent
    rw [Lib.Lifo.replay_append, hlog]
    rfl
  · exact fun h => iff_of_false (hrun h) (by simp)
  · have hd : s.deleteEvent.queued = 0 := hq
    rw [hd]
    rfl

theorem Good.done (hs : s.Good l gone 1) (ht : s.done = some t) : ∃ m b, t.Good m b 0 := by
  unfold Callbacks.done at ht
  rcases htop : s.event.compCB with _ | top <;> rw [htop] at ht
  · obtain rfl := Option.some.inj ht
    exact hs.deleteEvent htop
  · obtain ⟨cb, -, rfl⟩ := Option.map_eq_some_iff.1 ht
    obtain ⟨hlog, hlink, htidy⟩ := hs
    obtain ⟨rfl, hq, hrun⟩ := htidy.calling
    refine ⟨l, false, hlog, { hlink with },
      { htidy with marked := fun _ => rfl, owner := ⟨none, ?_, ?_⟩ }⟩
    · exact fun h => iff_of_false (hrun h) (by simp)
    · simp only [hq]
      rfl

/-- The handler of a callback that is there and off the stack is started. -/
theorem Good.eventDone {top : Cb} (hlog : Lib.Lifo.replay s.log = some (top :: l, false))
    (hlink : s.Linked l) (htidy : s.Tidy l gone 1) (htop : top ∉ l) (hthere : s.heap top ≠ none)
    (hfree : ∀ h, ¬ s.Entered h top) : (s.eventDone top).Good l false 0 := by
  obtain ⟨rfl, hq, hrun⟩ := htidy.calling
  refine ⟨?_, ⟨hlink.stack, hlink.there, fun c hc h _ he => ?_⟩,
    ⟨fun h hh => ?_, htidy.idle, fun h c he => ?_, fun h k c hh hk => ?_, htidy.marked,
      ⟨some s.started, fun h => ?_, ?_⟩⟩⟩
  · unfold Callbacks.eventDone
    rw [Lib.Lifo.replay_append, hlog]
    exact if_pos rfl
  · rcases entered_eventDone he with ⟨-, rfl⟩ | he
    · exact htop hc
    · exact hlink.apart c hc h (he.lt_started htidy) he
  · have hlt : s.started < h := hh
    rw [handlers_eventDone_of_ne (Nat.ne_of_gt hlt)]
    exact htidy.bound h (Nat.le_of_lt hlt)
  · rcases entered_eventDone he with ⟨-, rfl⟩ | he
    · exact hthere
    · exact htidy.live h c he
  · rcases entered_eventDone hh with ⟨rfl, rfl⟩ | hh <;>
      rcases entered_eventDone hk with ⟨rfl, hc⟩ | hk
    · rfl
    · exact absurd hk (hfree k)
    · exact absurd (hc ▸ hh) (hfree h)
    · exact htidy.alone h k c hh hk
  · rcases eq_or_ne h s.started with rfl | hh
    · unfold phase
      rw [handlers_eventDone_self]
      simp
    · rw [phase_eventDone_of_ne hh]
      exact iff_of_false (hrun h) (by simpa using hh.symm)
  · have hd : (s.eventDone top).queued = 0 := hq
    rw [hd]
    rfl

theorem Good.doneImmediate (hs : s.Good l gone 1) (ht : s.doneImmediate = some t) :
    ∃ m b, t.Good m b 0 := by
  unfold Callbacks.doneImmediate at ht
  rcases htop : s.event.compCB with _ | top <;> rw [htop] at ht
  · obtain rfl := Option.some.inj ht
    exact hs.deleteEvent htop
  · obtain ⟨cb, hcb, rfl⟩ := Option.map_eq_some_iff.1 ht
    obtain ⟨hlog, hlink, htidy⟩ := hs
    obtain ⟨rfl, hq, -⟩ := htidy.calling
    have hstack := hlink.stack
    rw [htop] at hstack
    obtain ⟨m, rfl, hm, hstack⟩ := hstack.pop
    have hnext := next_update s.heap top (some cb.popCallback.2)
    have hthere : ∀ c, s.heap c ≠ none →
        Function.update s.heap top (some cb.popCallback.2) c ≠ none := fun _ => update_ne_none
    refine ⟨m, false, Good.eventDone hlog ⟨?_, fun c hc => ?_, fun c hc => ?_⟩
      { htidy with
        idle := fun c hc => ?_
        live := fun h c he => ?_
        marked := fun h => absurd hq h } hm ?_ ?_⟩
    · unfold next at *
      rw [hnext]
      rwa [hcb] at hstack
    · exact hthere c (hlink.there c (by simp [hc]))
    · exact hlink.apart c (by simp [hc])
    · refine (congrFun hnext c).trans ?_
      rcases eq_or_ne c top with rfl | hne
      · rw [Function.update_self]
        rfl
      · rw [Function.update_of_ne hne]
        exact htidy.idle c (by simp [hne, hc])
    · exact hthere c (htidy.live h c he)
    · simp
    · exact fun h he => hlink.apart top (by simp) h (Entered.lt_started (s := s) he htidy) he

theorem pending_eq (hlog : Lib.Lifo.replay s.log = some (l, gone)) : s.pending = l := by
  unfold pending
  rw [hlog]
  rfl

/-- What is pushed joins the stack, and it is one if what is pushed is fresh, and only then. -/
theorem Tidy.pushCallback (hlog : Lib.Lifo.replay s.log = some (l, gone)) (hs : s.Tidy l gone 0)
    (hh : s.phase h = some .running) (ht : s.pushCallback c = some t) :
    Lib.Lifo.replay t.log = some (c :: l, false) ∧ t.Tidy (c :: l) false 0 ∧
      (s.Linked l → (t.Linked (c :: l) ↔ s.Fresh (.push h c))) := by
  obtain ⟨cb, hcb, ht⟩ := Option.bind_eq_some_iff.1 ht
  obtain ⟨cb', hpush, rfl⟩ := Option.map_eq_some_iff.1 ht
  obtain ⟨hnone, hcb'⟩ := Option.ite_none_right_eq_some.1 hpush
  obtain rfl := Option.some.inj hcb'
  obtain ⟨rfl, -⟩ := hs.alive hh
  have hnext := next_update s.heap c (some { cb with nextCb := s.event.compCB })
  refine ⟨?_, { hs with idle := fun d hd => ?_, live := fun k d he => ?_ }, fun hlink =>
    ⟨fun hlink' => ⟨fun hc => ?_, fun k => ?_⟩, fun ⟨hc, hfree⟩ => ⟨?_, fun d hd => ?_, ?_⟩⟩⟩
  · rw [Lib.Lifo.replay_append, hlog]
    rfl
  · have hdc : d ≠ c := fun h => hd (by simp [h])
    refine (congrFun hnext d).trans ?_
    rw [Function.update_of_ne hdc]
    exact hs.idle d fun h => hd (by simp [h])
  · exact update_ne_none (hs.live k d he)
  · rw [pending_eq hlog] at hc
    have hstack := hlink'.stack
    unfold next at hstack
    rw [hnext] at hstack
    exact Lib.not_isStack_push hlink.stack hc hstack
  · exact hlink'.apart c (by simp) k
  · rw [pending_eq hlog] at hc
    unfold next
    rw [hnext]
    exact hlink.stack.push hc
  · rcases List.mem_cons.1 hd with rfl | hd
    · simp
    · exact update_ne_none (hlink.there d hd)
  · intro d hd
    rcases List.mem_cons.1 hd with rfl | hd
    · exact hfree
    · exact hlink.apart d hd

/-- A handler that returns deletes its callback and nothing else. -/
theorem Good.deleteTop (hs : s.Good l gone n) (hr : s.phase h ≠ some .running)
    (hh : s.phase h ≠ some .returned) (hn : s.phase h ≠ none)
    (ht : (s.setPhase h .returned).deleteTop h = some t) : t.Good l gone n := by
  obtain ⟨hlog, hlink, htidy⟩ := hs
  have hlink' := hlink.setPhase (p := .returned) hh
  have htidy' := htidy.return hr hh hn
  unfold Callbacks.deleteTop at ht
  rw [callback_setPhase] at ht
  rcases hc : (s.handlers h).bind (·.callback) with _ | c <;> rw [hc] at ht
  · obtain rfl := Option.some.inj ht
    exact ⟨hlog, hlink', htidy'⟩
  · have he : s.Entered h c := ⟨hc, hh⟩
    have hcl : c ∉ l := fun hcl => hlink.apart c hcl h (he.lt_started htidy) he
    have hidle : (s.heap c).bind (·.nextCb) = none := htidy.idle c hcl
    obtain ⟨cb, hcb⟩ := Option.ne_none_iff_exists'.1 (htidy.live h c he)
    rw [hcb, Option.bind_some] at hidle
    have hdel : delete s.heap (s.log.length + 1) c = some (Function.update s.heap c none) := by
      simp only [delete, hcb, Option.bind_some, hidle]
    obtain ⟨heap, hheap, rfl⟩ := Option.map_eq_some_iff.1 ht
    obtain rfl := Option.some.inj (hdel.symm.trans hheap)
    have hnext : (fun d => (Function.update s.heap c none d).bind (·.nextCb)) = s.next := by
      rw [next_update, Option.bind_none]
      exact Function.update_eq_self_iff.2 (htidy.idle c hcl).symm
    refine ⟨hlog, { hlink' with stack := ?_, there := fun d hd => ?_ },
      { htidy' with idle := fun d hd => ?_, live := fun k d he' => ?_ }⟩
    · unfold next
      rw [hnext]
      exact hlink.stack
    · have hdc : d ≠ c := fun h => hcl (h ▸ hd)
      exact (Function.update_of_ne hdc ..).trans_ne (hlink.there d hd)
    · exact (congrFun hnext d).trans (htidy.idle d hd)
    · have hdc : d ≠ c := by
        rintro rfl
        have hk := htidy.alone k h d (Entered.of_setPhase he' hh) he
        subst hk
        exact he'.2 (phase_setPhase_self hn)
      exact (Function.update_of_ne hdc ..).trans_ne (htidy'.live k d he')

/-! ### Runs -/

theorem Good.sound (hs : s.Good l gone 0) : s.Sound := by
  obtain ⟨hlog, hlink, htidy⟩ := hs
  refine ⟨l, gone, hlog, hlink, ?_⟩
  rintro rfl
  obtain ⟨holder, hrun, hsum⟩ := htidy.owner
  rcases holder with _ | h
  · have hq : s.queued ≠ 0 := by
      simp at hsum
      omega
    exact .inl ⟨hq, htidy.marked hq⟩
  · exact .inr ⟨h, (hrun h).2 rfl⟩

theorem good_start : (start : Callbacks Cb).Good [] false 0 := by
  have hentered : ∀ h c, ¬ (start : Callbacks Cb).Entered h c := by
    rintro h c ⟨hc, -⟩
    unfold start at hc
    simp only at hc
    split_ifs at hc <;> simp at hc
  refine ⟨rfl, ⟨rfl, by simp, by simp⟩, ⟨fun h hh => ?_, fun c _ => rfl, fun h c he => ?_,
    fun h k c he => ?_, fun h => absurd rfl h, ⟨some 0, fun h => ?_, rfl⟩⟩⟩
  · exact if_neg (Nat.ne_of_gt hh)
  · exact absurd he (hentered h c)
  · exact absurd he (hentered h c)
  · rcases h with _ | h
    · exact iff_of_true rfl rfl
    · exact iff_of_false (by simp [phase, start]) (by simp)

/-- What a step other than a push does to a good state. -/
theorem Good.step {a : Label Cb} (hs : s.Good l gone 0) (hstep : machine.step s a = some t)
    (ha : ∀ h c, a ≠ .push h c) : ∃ m b, t.Good m b 0 := by
  unfold machine at hstep
  rcases a with ⟨h, c⟩ | h | h | _ | h
  · exact absurd rfl (ha h c)
  · obtain ⟨hh, hstep⟩ := Option.ite_none_right_eq_some.1 hstep
    exact (hs.call hh (by simp)).done hstep
  · obtain ⟨hh, hstep⟩ := Option.ite_none_right_eq_some.1 hstep
    refine (hs.call hh ?_).doneImmediate hstep
    split_ifs <;> simp
  · obtain ⟨⟨hq, -⟩, hstep⟩ := Option.ite_none_right_eq_some.1 hstep
    obtain ⟨hlog, hlink, htidy⟩ := hs
    obtain ⟨holder, hrun, hsum⟩ := htidy.owner
    have hsum' : s.queued - 1 + holder.toList.length + gone.toNat + 1 = 1 := by omega
    exact Good.doneImmediate (s := { s with queued := s.queued - 1 }) ⟨hlog, { hlink with },
      { htidy with marked := fun _ => htidy.marked hq, owner := ⟨holder, hrun, hsum'⟩ }⟩ hstep
  · obtain ⟨hh, hstep⟩ := Option.ite_none_right_eq_some.1 hstep
    unfold mayReturn at hh
    refine ⟨l, gone, hs.deleteTop ?_ ?_ ?_ hstep⟩ <;> intro hp <;> simp [hp] at hh

/-- In every run of pushes that pass the assertion, of `done` and `doneImmediate` at the end of each
handler, of dispatches and returns, the stack is one of callbacks that stay, they are run last in
first out, each once for each push, and the event is deleted once after them, all along the run if
each callback pushed is neither on the stack nor one whose handler has yet to return, and only
then. -/
theorem sound_iff_fresh {ls : List (Label Cb)} (hrun : machine.run start ls = some t) :
    machine.Throughout Sound start ls ↔ machine.Meets Fresh start ls := by
  refine machine.throughout_iff_meets (B := fun _ => True)
    (I := fun s => ∃ l gone, Lib.Lifo.replay s.log = some (l, gone) ∧ s.Tidy l gone 0)
    (fun _ _ _ _ _ => trivial) (fun s a u _ hI hs hstep => ?_) ls trivial
    ⟨[], false, rfl, good_start.tidy⟩ good_start.sound hrun
  obtain ⟨l, gone, hlog, htidy⟩ := hI
  have hgood : s.Good l gone 0 := by
    obtain ⟨m, b, hlog', hlink, -⟩ := hs
    obtain ⟨rfl, rfl⟩ := Prod.mk.inj (Option.some.inj (hlog'.symm.trans hlog))
    exact ⟨hlog, hlink, htidy⟩
  by_cases ha : ∃ h c, a = .push h c
  · obtain ⟨h, c, rfl⟩ := ha
    obtain ⟨hh, hpush⟩ := Option.ite_none_right_eq_some.1 hstep
    obtain ⟨hlog', htidy', hiff⟩ := htidy.pushCallback hlog hh hpush
    refine ⟨⟨c :: l, false, hlog', htidy'⟩, fun hu => (hiff hgood.linked).1 ?_, fun hfresh => ?_⟩
    · obtain ⟨m, b, hlog'', hlink, -⟩ := hu
      obtain ⟨rfl, rfl⟩ := Prod.mk.inj (Option.some.inj (hlog''.symm.trans hlog'))
      exact hlink
    · exact Good.sound ⟨hlog', (hiff hgood.linked).2 hfresh, htidy'⟩
  · have ha' : ∀ h c, a ≠ .push h c := fun h c hc => ha ⟨h, c, hc⟩
    obtain ⟨m, b, hgood'⟩ := hgood.step hstep ha'
    refine ⟨⟨m, b, hgood'.history, hgood'.tidy⟩, iff_of_true hgood'.sound ?_⟩
    rcases a with ⟨h, c⟩ | h | h | _ | h
    · exact absurd rfl (ha' h c)
    all_goals trivial

/-- A callback is pushed by the handler of another one, and both are run. -/
theorem sound_of_nested :
    let ls : List (Label ℕ) := [.push 0 1, .push 0 2, .done 0, .dispatch, .push 1 3, .finish 0,
      .doneImmediate 1, .done 2, .dispatch, .finish 2, .finish 1, .doneImmediate 3, .finish 3]
    (∃ t, machine.run start ls = some t ∧
      t.log = [.put 1, .put 2, .took 2, .put 3, .took 3, .took 1, .closed]) ∧
    machine.Throughout Sound start ls := by
  intro ls
  have hmeets : machine.Meets Fresh start ls := by decide
  have hrun : machine.run start ls = some _ := rfl
  exact ⟨⟨_, hrun, rfl⟩, (sound_iff_fresh hrun).2 hmeets⟩

/-- The callback at the bottom is pushed once more: the assertion passes, and it is its own next
one. -/
theorem loop_of_pushed_twice : ∃ t : Callbacks ℕ,
    machine.run start [.push 0 1, .push 0 1] = some t ∧
      ∀ l, ¬ Lib.IsStack t.next t.event.compCB l := by
  refine ⟨_, rfl, fun l => Lib.not_isStack_of_loop (l := [1]) ?_ (by simp)⟩
  exact ⟨rfl, rfl⟩

/-- A callback is pushed by its own handler, and deleted with the rest when that returns. -/
example : (machine.run start [.push 0 1, .push 0 2, .done 0, .dispatch, .push 1 2, .done 1,
    .finish 1]).map (fun t : Callbacks ℕ => (t.event.compCB, t.heap 2, t.heap 1)) =
      some (some 2, none, none) := rfl

end

end Callbacks
end Longda
