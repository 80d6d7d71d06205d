import Longda.Lang.Lstring
import Longda.Lib.Chains
import Longda.Lib.Machine

/-!
# The event dispatcher

A subclass decides of each event whether it is sent on, stored under a key or has failed, and of a
stored event once more whenever it is woken (`dispatchEvent`, with a state of its own). The log
notes what becomes of the events. However the subclass decides, each event given is in one place,
and those stored under one key leave it in the order in which they came (`conserved_of_run`).
-/

namespace Longda

open Lib

inductive DispatchStatus
  | SEND_EVENT
  | STORE_EVENT
  | FAIL_EVENT
  deriving DecidableEq

/-- What `dispatchEvent` returns, and what it leaves in the parameters it may set. -/
structure Dispatch (γ : Type) where
  stat : DispatchStatus
  ctx : Option γ
  hash : Str

inductive DispatchDeed (ε : Type)
  | given (event : ε)
  | sent (event : ε)
  | stored (hash : Str) (event : ε)
  | woken (hash : Str) (event : ε)
  | failed (event : ε)
  | completed (hash : Str) (event : ε)

/-- The stage, the state of the subclass and the log so far. -/
structure EventDispatcher (ω ε γ : Type) where
  eventStore : OrderedMap Str (List (ε × Option γ)) := .empty
  subclass : ω
  log : List (DispatchDeed ε) := []

inductive DispatchOp (ε : Type)
  | handleEvent (event : ε)
  | wakeupEvent (hashkey : Str)
  | cleanup

/-- The event that the operation gives to the dispatcher. -/
def DispatchOp.given? {ε : Type} : DispatchOp ε → Option ε
  | handleEvent event => some event
  | _ => none

namespace EventDispatcher

variable {ω ε γ : Type} (dispatchEvent : ω → ε → Option γ → Str → Dispatch γ × ω)

def handleEvent (s : EventDispatcher ω ε γ) (event : ε) : EventDispatcher ω ε γ :=
  let (d, subclass) := dispatchEvent s.subclass event none []
  let log := s.log ++ [.given event]
  match d.stat with
  | .SEND_EVENT => { s with subclass, log := log ++ [.sent event] }
  | .STORE_EVENT =>
    { s with
      eventStore := push s.eventStore d.hash (event, d.ctx)
      subclass, log := log ++ [.stored d.hash event] }
  | .FAIL_EVENT => { s with subclass, log := log ++ [.failed event] }

/-- Whether an event was sent. The first event of an empty chain is no event. -/
def wakeupEvent (s : EventDispatcher ω ε γ) (hashkey : Str) :
    Option (Bool × EventDispatcher ω ε γ) :=
  match s.eventStore.find? hashkey with
  | none => some (false, s)
  | some [] => none
  | some (targetEv :: chain) =>
    let eventStore := putBack s.eventStore hashkey chain
    let log := s.log ++ [.woken hashkey targetEv.1]
    let (d, subclass) := dispatchEvent s.subclass targetEv.1 targetEv.2 hashkey
    match d.stat with
    | .SEND_EVENT => some (true, { eventStore, subclass, log := log ++ [.sent targetEv.1] })
    | .STORE_EVENT =>
      some (false, {
        eventStore := push eventStore d.hash (targetEv.1, d.ctx)
        subclass, log := log ++ [.stored d.hash targetEv.1] })
    | .FAIL_EVENT => some (false, { eventStore, subclass, log := log ++ [.failed targetEv.1] })

/-- For each chain, `done` for each event on it. -/
def completions (l : List (Str × List (ε × Option γ))) : List (DispatchDeed ε) :=
  l.flatMap fun i => i.2.map fun j => .completed i.1 j.1

def cleanup (s : EventDispatcher ω ε γ) : EventDispatcher ω ε γ :=
  { s with
    eventStore := .empty
    log := s.log ++ completions s.eventStore.entries }

def step (s : EventDispatcher ω ε γ) : DispatchOp ε → Option (EventDispatcher ω ε γ)
  | .handleEvent event => some (s.handleEvent dispatchEvent event)
  | .wakeupEvent hashkey => (s.wakeupEvent dispatchEvent hashkey).map Prod.snd
  | .cleanup => some s.cleanup

def machine : Machine (EventDispatcher ω ε γ) (DispatchOp ε) := ⟨step dispatchEvent⟩

end EventDispatcher

namespace DispatchDeed

variable {ε : Type}

def given? : DispatchDeed ε → Option ε
  | given event => some event
  | _ => none

/-- The event has left the dispatcher. -/
def gone? : DispatchDeed ε → Option ε
  | sent event => some event
  | failed event => some event
  | completed _ event => some event
  | _ => none

/-- The event joins the queue of the key. -/
def joins? (k : Str) : DispatchDeed ε → Option ε
  | stored hash event => if hash = k then some event else none
  | _ => none

/-- The event leaves the queue of the key. -/
def leaves? (k : Str) : DispatchDeed ε → Option ε
  | woken hash event => if hash = k then some event else none
  | completed hash event => if hash = k then some event else none
  | _ => none

end DispatchDeed

namespace EventDispatcher

open DispatchDeed

variable {ω ε γ : Type}

/-- Each event given has gone or is stored, no queue is empty, and those who joined a queue are
those who left it and those in it, in this order. -/
structure Conserved (s : EventDispatcher ω ε γ) : Prop where
  placed : (s.log.filterMap given?).Perm
    (s.log.filterMap gone? ++ (queued s.eventStore).map Prod.fst)
  noEmpty : NoEmpty s.eventStore
  fifo : ∀ k, s.log.filterMap (joins? k)
    = s.log.filterMap (leaves? k) ++ (chain s.eventStore k).map Prod.fst

variable {s t : EventDispatcher ω ε γ} {event : ε} {hashkey : Str}
  {dispatchEvent : ω → ε → Option γ → Str → Dispatch γ × ω}

/-- The event is with the dispatcher, and in no place yet. -/
structure Pending (s : EventDispatcher ω ε γ) (event : ε) : Prop where
  placed : (s.log.filterMap given?).Perm
    (event :: (s.log.filterMap gone? ++ (queued s.eventStore).map Prod.fst))
  noEmpty : NoEmpty s.eventStore
  fifo : ∀ k, s.log.filterMap (joins? k)
    = s.log.filterMap (leaves? k) ++ (chain s.eventStore k).map Prod.fst

theorem Conserved.given (h : s.Conserved) (event : ε) :
    Pending { s with log := s.log ++ [.given event] } event := by
  refine ⟨?_, h.noEmpty, fun k => ?_⟩
  · simpa [List.filterMap_cons, given?, gone?] using
      (List.perm_append_singleton event _).trans (h.placed.cons event)
  · simpa [List.filterMap_cons, joins?, leaves?] using h.fifo k

theorem Conserved.woken {targetEv : ε × Option γ} {l : List (ε × Option γ)} (h : s.Conserved)
    (hfind : s.eventStore.find? hashkey = some (targetEv :: l)) :
    Pending { s with
      eventStore := putBack s.eventStore hashkey l
      log := s.log ++ [.woken hashkey targetEv.1] } targetEv.1 := by
  have hchain := chain_of_find? hfind
  refine ⟨?_, h.noEmpty.putBack, fun k => ?_⟩
  · have hpop := (queued_pop hchain).map Prod.fst
    rw [List.map_cons] at hpop
    simpa [List.filterMap_cons, given?, gone?] using
      h.placed.trans ((hpop.append_left _).trans List.perm_middle)
  · have hfifo := h.fifo k
    rw [chain_putBack]
    split_ifs with hk
    · subst hk
      rw [hchain] at hfifo
      simpa [List.filterMap_cons, joins?, leaves?] using hfifo
    · simpa [List.filterMap_cons, joins?, leaves?, Ne.symm hk] using hfifo

variable {subclass : ω}

theorem Pending.sent (h : s.Pending event) :
    Conserved { s with subclass, log := s.log ++ [.sent event] } := by
  refine ⟨?_, h.noEmpty, fun k => ?_⟩
  · simpa [List.filterMap_cons, given?, gone?] using h.placed.trans List.perm_middle.symm
  · simpa [List.filterMap_cons, joins?, leaves?] using h.fifo k

theorem Pending.failed (h : s.Pending event) :
    Conserved { s with subclass, log := s.log ++ [.failed event] } := by
  refine ⟨?_, h.noEmpty, fun k => ?_⟩
  · simpa [List.filterMap_cons, given?, gone?] using h.placed.trans List.perm_middle.symm
  · simpa [List.filterMap_cons, joins?, leaves?] using h.fifo k

theorem Pending.stored (h : s.Pending event) (hash : Str) (ctx : Option γ) :
    Conserved { s with
      eventStore := push s.eventStore hash (event, ctx)
      subclass, log := s.log ++ [.stored hash event] } := by
  refine ⟨?_, h.noEmpty.push, fun k => ?_⟩
  · have hpush := (queued_push (m := s.eventStore) (k := hash) (x := (event, ctx))).map Prod.fst
    rw [List.map_cons] at hpush
    simpa [List.filterMap_cons, given?, gone?] using
      h.placed.trans (List.perm_middle.symm.trans (hpush.symm.append_left _))
  · have hfifo := h.fifo k
    rw [chain_push]
    split_ifs with hk
    · subst hk
      simp [List.filterMap_cons, joins?, leaves?, hfifo]
    · simpa [List.filterMap_cons, joins?, leaves?, Ne.symm hk] using hfifo

theorem Conserved.handleEvent (h : s.Conserved) (event : ε) :
    (s.handleEvent dispatchEvent event).Conserved := by
  have hpending := h.given event
  unfold EventDispatcher.handleEvent
  rcases dispatchEvent s.subclass event none [] with ⟨⟨stat, ctx, hash⟩, subclass⟩
  rcases stat
  · exact hpending.sent
  · exact hpending.stored hash ctx
  · exact hpending.failed

/-- There is a first event on every chain that is found. -/
theorem Conserved.wakeupEvent (h : s.Conserved)
    (dispatchEvent : ω → ε → Option γ → Str → Dispatch γ × ω) (hashkey : Str) :
    ∃ r, s.wakeupEvent dispatchEvent hashkey = some r ∧ r.2.Conserved := by
  unfold EventDispatcher.wakeupEvent
  rcases hfind : s.eventStore.find? hashkey with _ | _ | ⟨targetEv, l⟩
  · exact ⟨_, rfl, h⟩
  · exact absurd rfl (h.noEmpty hashkey [] hfind)
  · have hpending := h.woken hfind
    dsimp only
    rcases dispatchEvent s.subclass targetEv.1 targetEv.2 hashkey with ⟨⟨stat, ctx, hash⟩, subclass⟩
    rcases stat
    · exact ⟨_, rfl, hpending.sent⟩
    · exact ⟨_, rfl, hpending.stored hash ctx⟩
    · exact ⟨_, rfl, hpending.failed⟩

theorem completions_append (l₁ l₂ : List (Str × List (ε × Option γ))) :
    completions (l₁ ++ l₂) = completions l₁ ++ completions l₂ := List.flatMap_append

variable {l : List (Str × List (ε × Option γ))} {k : Str}

theorem given_completions : (completions l).filterMap given? = [] := by
  rw [List.filterMap_eq_nil_iff]
  intro d hd
  obtain ⟨i, -, hd⟩ := List.mem_flatMap.1 hd
  obtain ⟨j, -, rfl⟩ := List.mem_map.1 hd
  rfl

theorem joins_completions : (completions l).filterMap (joins? k) = [] := by
  rw [List.filterMap_eq_nil_iff]
  intro d hd
  obtain ⟨i, -, hd⟩ := List.mem_flatMap.1 hd
  obtain ⟨j, -, rfl⟩ := List.mem_map.1 hd
  rfl

theorem gone_completions : (completions l).filterMap gone? = (l.flatMap (·.2)).map Prod.fst := by
  unfold completions
  rw [List.filterMap_flatMap, List.map_flatMap]
  refine congrArg l.flatMap (funext fun i => ?_)
  rw [List.filterMap_map]
  exact congrFun List.filterMap_eq_map' i.2

theorem leaves_completions_of_ne (h : ∀ i ∈ l, i.1 ≠ k) :
    (completions l).filterMap (leaves? k) = [] := by
  rw [List.filterMap_eq_nil_iff]
  intro d hd
  obtain ⟨i, hi, hd⟩ := List.mem_flatMap.1 hd
  obtain ⟨j, -, rfl⟩ := List.mem_map.1 hd
  simp [leaves?, h i hi]

theorem leaves_completions (m : OrderedMap Str (List (ε × Option γ))) :
    (completions m.entries).filterMap (leaves? k) = (chain m k).map Prod.fst := by
  rcases h : m.find? k with _ | c
  · rw [chain_of_none h, leaves_completions_of_ne (OrderedMap.find?_eq_none_iff.1 h)]
    rfl
  · obtain ⟨l₁, l₂, hl, h₁, h₂⟩ := OrderedMap.entries_eq h
    have hc : completions ((k, c) :: l₂) =
        c.map (fun j => .completed k j.1) ++ completions l₂ := rfl
    rw [chain_of_find? h, hl, completions_append, hc, List.filterMap_append, List.filterMap_append,
      leaves_completions_of_ne h₁, leaves_completions_of_ne h₂, List.nil_append, List.append_nil,
      List.filterMap_map]
    simp [leaves?, Function.comp_def]

theorem Conserved.cleanup (h : s.Conserved) : s.cleanup.Conserved := by
  refine ⟨?_, noEmpty_empty, fun k => ?_⟩
  · show (List.filterMap given? (s.log ++ completions s.eventStore.entries)).Perm
      (List.filterMap gone? (s.log ++ completions s.eventStore.entries) ++ [])
    rw [List.filterMap_append, List.filterMap_append, given_completions, gone_completions,
      List.append_nil, List.append_nil]
    exact h.placed
  · show List.filterMap (joins? k) (s.log ++ completions s.eventStore.entries)
      = List.filterMap (leaves? k) (s.log ++ completions s.eventStore.entries) ++ []
    rw [List.filterMap_append, List.filterMap_append, joins_completions, leaves_completions,
      List.append_nil, List.append_nil]
    exact h.fifo k

theorem conserved_start (subclass : ω) :
    ({ subclass } : EventDispatcher ω ε γ).Conserved := by
  exact ⟨.nil, noEmpty_empty, fun k => rfl⟩

theorem Conserved.step (h : s.Conserved) (l : DispatchOp ε) :
    ∃ t, s.step dispatchEvent l = some t ∧ t.Conserved := by
  rcases l with event | hashkey | _
  · exact ⟨_, rfl, h.handleEvent event⟩
  · obtain ⟨r, hr, hconserved⟩ := h.wakeupEvent dispatchEvent hashkey
    exact ⟨r.2, by simp [EventDispatcher.step, hr], hconserved⟩
  · exact ⟨_, rfl, h.cleanup⟩

/-- The log notes as given the event that the operation gives, and no other. -/
theorem given_of_step {l : DispatchOp ε} (h : s.step dispatchEvent l = some t) :
    t.log.filterMap given? = s.log.filterMap given? ++ l.given?.toList := by
  rcases l with event | hashkey | _
  · obtain rfl := Option.some.inj h
    unfold EventDispatcher.handleEvent
    rcases dispatchEvent s.subclass event none [] with ⟨⟨stat, ctx, hash⟩, subclass⟩
    rcases stat <;> simp [List.filterMap_cons, DispatchDeed.given?, DispatchOp.given?]
  · obtain ⟨r, hr, rfl⟩ := Option.map_eq_some_iff.1 h
    unfold EventDispatcher.wakeupEvent at hr
    split at hr
    · obtain rfl := Option.some.inj hr
      exact (List.append_nil _).symm
    · cases hr
    · next targetEv chain hfind =>
      rcases hd : dispatchEvent s.subclass targetEv.1 targetEv.2 hashkey with
        ⟨⟨stat, ctx, hash⟩, subclass⟩
      rw [hd] at hr
      rcases stat <;> obtain rfl := Option.some.inj hr <;>
        simp [List.filterMap_cons, DispatchDeed.given?, DispatchOp.given?]
  · obtain rfl := Option.some.inj h
    show (s.log ++ completions s.eventStore.entries).filterMap given? = _ ++ []
    rw [List.filterMap_append, given_completions]

theorem given_of_run {ls : List (DispatchOp ε)} (h : (machine dispatchEvent).run s ls = some t) :
    t.log.filterMap given? = s.log.filterMap given? ++ ls.filterMap DispatchOp.given? := by
  induction ls generalizing s with
  | nil =>
    obtain rfl := Option.some.inj h
    exact (List.append_nil _).symm
  | cons l ls ih =>
    obtain ⟨u, hu, h⟩ := Option.bind_eq_some_iff.1 h
    rw [ih h, given_of_step hu, List.append_assoc]
    cases hl : l.given? <;> simp [hl]

/-- Whatever is decided and done, the events given are those of the operations, all are accounted
for, and after a cleanup none is stored. -/
theorem conserved_of_run (dispatchEvent : ω → ε → Option γ → Str → Dispatch γ × ω) (subclass : ω)
    (ls : List (DispatchOp ε)) :
    ∃ t, (machine dispatchEvent).run { subclass } ls = some t
      ∧ t.log.filterMap given? = ls.filterMap DispatchOp.given? ∧ t.Conserved
      ∧ ∀ done, ls = done ++ [.cleanup] → t.eventStore = .empty := by
  obtain ⟨t, hrun, ht⟩ := (machine dispatchEvent).run_exists (I := Conserved)
    (fun s l hs => hs.step l) ls (conserved_start subclass)
  refine ⟨t, hrun, given_of_run hrun, ht, fun done hdone => ?_⟩
  rw [hdone, Machine.run_append, Option.bind_eq_some_iff] at hrun
  obtain ⟨u, -, hcleanup⟩ := hrun
  rw [Machine.run_cons] at hcleanup
  rw [← Option.some.inj hcleanup]
  rfl

/-- Event 1 is stored, woken and sent on, and event 2 is stored and completed by the cleanup. -/
example : ((machine fun (w : ℕ) (_ : ℕ) (ctx : Option Unit) hash =>
      (⟨if w = 2 then .SEND_EVENT else .STORE_EVENT, ctx, hash⟩, w + 1)).run { subclass := 0 }
        [.handleEvent 1, .handleEvent 2, .wakeupEvent [], .cleanup]).map (·.log) =
    some [.given 1, .stored [] 1, .given 2, .stored [] 2, .woken [] 1, .sent 1,
      .completed [] 2] := by
  rfl

end EventDispatcher

end Longda
