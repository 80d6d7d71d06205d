import Longda.Seda.SedaSteps

/-!
# The events of a stage are accounted for

An event of a connected stage is first a schedule call to be made, then a token of the stage in the
run queue of its pool, and then in the hands of a thread, until the thread releases it. The
reference count of the stage is the number of these (`Balanced`), and the stage keeps an event for
each until the thread removes it, in the order in which they were added. So no schedule call finds
the stage empty, no thread that has taken the stage off the run queue does, and the count is zero
only where no thread has an event of the stage. Each move of an event keeps the accounts of its
stage.
-/

namespace Longda

open Lib

variable {ε : Type*}

namespace Worker

/-- The thread has taken the stage off the run queue and removes an event next. -/
def popped (s : StageId) (x : Worker ε) : Bool :=
  match x.pc with
  | .popped r => decide (r = s)
  | _ => false

/-- The thread is about to schedule the stage. -/
def calls (s : StageId) (x : Worker ε) : Bool :=
  match x.pc with
  | .handling _ _ (some r) => decide (r = s)
  | _ => false

/-- The thread has an event of the stage. -/
def processes (s : StageId) (x : Worker ε) : Bool :=
  match x.pc with
  | .handling r _ _ => decide (r = s)
  | .dying r _ => decide (r = s)
  | _ => false

end Worker

namespace KillPc

/-- The schedule calls of `killer.connect` still to be made, or that of an event. -/
def calls : KillPc → ℕ
  | .unlocked n _ | .connecting n _ => n
  | .scheduling _ _ => 1
  | _ => 0

/-- The killer is connected. -/
def connects : KillPc → Bool
  | .none | .disconnecting _ => false
  | _ => true

/-- `killer.disconnect` waits. -/
def closes : KillPc → Bool
  | .disconnecting _ => true
  | _ => false

/-- A schedule call is one call less to be made. -/
theorem called_spec {k k' : KillPc} (h : k.called = some k') :
    k'.calls + 1 = k.calls ∧ k.connects = true ∧ k'.connects = true ∧ k.closes = false
      ∧ k'.closes = false := by
  unfold called at h
  split at h
  · cases h
    exact ⟨rfl, rfl, rfl, rfl, rfl⟩
  · cases h
    exact ⟨rfl, rfl, rfl, rfl, rfl⟩
  · cases h

end KillPc

namespace SedaWorld

/-- The schedule calls still to be made by the calls of `connect` that have yet to read `connected`
again, or by the `killThreads` of the pool whose killer the stage is. -/
def ownCalls (w : SedaWorld ε) : StageId → ℕ
  | .stage n => (w.life n).backlogs.sum
  | .killer p => (w.pools p).kill.calls

/-- A `disconnect` of the stage waits. -/
def Closing (w : SedaWorld ε) : StageId → Prop
  | .stage n => 0 < (w.life n).waits
  | .killer p => (w.pools p).kill.closes = true

theorem not_closing_stage {w : SedaWorld ε} {n : ℕ} (h : (w.life n).waits = 0) :
    ¬w.Closing (.stage n) := fun hc => absurd hc (by rw [Closing, h]; exact Nat.lt_irrefl 0)

theorem not_closing_killer {w : SedaWorld ε} {p : ℕ} (h : (w.pools p).kill.closes = false) :
    ¬w.Closing (.killer p) := fun hc => Bool.false_ne_true (h.symm.trans hc)

/-- The tokens of the stage in the run queue of its pool. -/
def tokens (w : SedaWorld ε) (s : StageId) : ℕ :=
  match (w.stages s).thPool with
  | none => 0
  | some p => (w.pools p).runQueue.count s

/-- The schedule calls still to be made for the stage. -/
def pending (w : SedaWorld ε) (s : StageId) : ℕ :=
  w.calls.count s + w.workers.countP (Worker.calls s) + w.ownCalls s

def popped (w : SedaWorld ε) (s : StageId) : ℕ := w.workers.countP (Worker.popped s)

/-- The events of the stage in the hands of a thread. -/
def processing (w : SedaWorld ε) (s : StageId) : ℕ := w.workers.countP (Worker.processes s)

/-- The reference count is that of the tokens, the calls and the events in hand, and the stage has
the events to come. -/
structure Balanced (w : SedaWorld ε) (s : StageId) : Prop where
  /-- No other pool has the stage in its run queue. -/
  elsewhere : ∀ p, (w.stages s).thPool ≠ some p → (w.pools p).runQueue.count s = 0
  ref : (w.stages s).eventRef = ↑(w.tokens s + w.pending s + w.popped s + w.processing s)
  len : w.tokens s + w.pending s + w.popped s ≤ (w.stages s).eventList.length
  order : (w.stages s).entered = (w.stages s).removed ++ (w.stages s).eventList

/-- What a stage is while it is connected, disconnected, or in between. -/
structure Lived (w : SedaWorld ε) (s : StageId) : Prop where
  pooled : (w.stages s).thPool = none →
    (w.stages s).connected = false ∧ (w.stages s).eventRef = 0
  quiet : (w.stages s).connected = false → ¬w.Closing s → (w.stages s).eventRef = 0
  closing : w.Closing s → (w.stages s).connected = false
  /-- A `connect` that has a backlog to schedule will find the stage connected. -/
  unread : 0 < w.ownCalls s → (w.stages s).connected = true
  kill : ∀ p, s = .killer p → (w.stages s).connected = (w.pools p).kill.connects

structure Accounted (w : SedaWorld ε) (s : StageId) : Prop where
  balanced : w.Balanced s
  lived : w.Lived s

variable {w u v : SedaWorld ε} {s r : StageId} {i p q : ℕ} {pc : WorkerPc ε} {x : Worker ε}
  {event : ε} {st : SedaStage ε}

/-- Where a thread is for the stage. -/
def places (s : StageId) : List (Worker ε → Bool) :=
  [Worker.calls s, Worker.popped s, Worker.processes s]

theorem forall_places {P : (Worker ε → Bool) → Prop} : (∀ f ∈ places s, P f) ↔
    P (Worker.calls s) ∧ P (Worker.popped s) ∧ P (Worker.processes s) := by
  simp [places]

theorem SameCounts.calls (h : SameCounts w u (places s)) :
    u.workers.countP (Worker.calls s) = w.workers.countP (Worker.calls s) := (forall_places.1 h).1

theorem SameCounts.popped (h : SameCounts w u (places s)) : u.popped s = w.popped s :=
  (forall_places.1 h).2.1

theorem SameCounts.processing (h : SameCounts w u (places s)) : u.processing s = w.processing s :=
  (forall_places.1 h).2.2

/-- The calls that connect and disconnect the stage are where they were. -/
structure SameLife (w u : SedaWorld ε) (s : StageId) : Prop where
  calls : u.ownCalls s = w.ownCalls s
  closing : u.Closing s ↔ w.Closing s
  connects : ∀ p, s = .killer p → (u.pools p).kill.connects = (w.pools p).kill.connects

theorem SameLife.of_eq (hlife : u.life = w.life)
    (hk : ∀ q, (u.pools q).kill = (w.pools q).kill) : SameLife w u s := by
  cases s with
  | stage n =>
    refine ⟨?_, ?_, fun q hq => by cases hq⟩
    · show (u.life n).backlogs.sum = _
      rw [hlife]
      rfl
    · show 0 < (u.life n).waits ↔ _
      rw [hlife]
      rfl
  | killer p =>
    refine ⟨congrArg KillPc.calls (hk p), ?_, fun q _ => congrArg KillPc.connects (hk q)⟩
    show (u.pools p).kill.closes = true ↔ _
    rw [hk]
    rfl

theorem pending_congr (hcalls : u.calls.count s = w.calls.count s)
    (hworkers : u.workers.countP (Worker.calls s) = w.workers.countP (Worker.calls s))
    (hown : u.ownCalls s = w.ownCalls s) : u.pending s = w.pending s := by
  unfold pending
  rw [hcalls, hworkers, hown]

theorem tokens_eq (h : (w.stages s).thPool = some p) :
    w.tokens s = (w.pools p).runQueue.count s := by
  unfold tokens
  rw [h]

theorem tokens_congr (hp : (u.stages s).thPool = (w.stages s).thPool)
    (hq : ∀ p, (u.pools p).runQueue.count s = (w.pools p).runQueue.count s) :
    u.tokens s = w.tokens s := by
  unfold tokens
  rw [hp]
  split
  · rfl
  · exact hq _

/-- A step that leaves the stage, its tokens and its counts as they are. -/
theorem Balanced.congr (hw : w.Balanced s) (hst : u.stages s = w.stages s)
    (hq : ∀ p, (u.pools p).runQueue.count s = (w.pools p).runQueue.count s)
    (hpend : u.pending s = w.pending s) (hpop : u.popped s = w.popped s)
    (hproc : u.processing s = w.processing s) : u.Balanced s := by
  have htok : u.tokens s = w.tokens s := tokens_congr (by rw [hst]) hq
  constructor
  · rw [hst]
    intro p hp
    rw [hq]
    exact hw.elsewhere p hp
  · rw [hst, htok, hpend, hpop, hproc]
    exact hw.ref
  · rw [hst, htok, hpend, hpop]
    exact hw.len
  · rw [hst]
    exact hw.order

/-- A step that leaves the stage what it is. -/
theorem Lived.keep (hw : w.Lived s) (hc : (u.stages s).connected = (w.stages s).connected)
    (hp : (u.stages s).thPool = (w.stages s).thPool)
    (h0 : (w.stages s).connected = false → (w.stages s).eventRef = 0 → (u.stages s).eventRef = 0)
    (hclosing : u.Closing s ↔ w.Closing s)
    (hun : 0 < u.ownCalls s → (w.stages s).connected = true)
    (hk : ∀ p, s = .killer p → (u.pools p).kill.connects = (w.pools p).kill.connects) :
    u.Lived s := by
  constructor
  · rw [hc, hp]
    exact fun hnone => ⟨(hw.pooled hnone).1, h0 (hw.pooled hnone).1 (hw.pooled hnone).2⟩
  · rw [hc, hclosing]
    exact fun hf hd => h0 hf (hw.quiet hf hd)
  · rw [hc, hclosing]
    exact hw.closing
  · rw [hc]
    exact hun
  · intro p hs
    rw [hc, hk p hs]
    exact hw.kill p hs

theorem Lived.congr (hw : w.Lived s) (hst : u.stages s = w.stages s) (hlife : SameLife w u s) :
    u.Lived s :=
  hw.keep (by rw [hst]) (by rw [hst]) (fun _ h => by rw [hst, h]) hlife.closing
    (by rw [hlife.calls]; exact hw.unread) hlife.connects

/-- A step that is none of the stage's business. -/
theorem Accounted.congr (hw : w.Accounted s) (hst : u.stages s = w.stages s)
    (hlife : SameLife w u s) (hcalls : u.calls.count s = w.calls.count s)
    (hq : ∀ q, (u.pools q).runQueue.count s = (w.pools q).runQueue.count s)
    (hwork : SameCounts w u (places s)) : u.Accounted s where
  balanced := hw.balanced.congr hst hq (pending_congr hcalls hwork.calls hlife.calls) hwork.popped
    hwork.processing
  lived := hw.lived.congr hst hlife

/-! The moves of a stage's events. -/

/-- An event is added, with a schedule call to come if the stage is connected. -/
theorem Balanced.enter (hw : w.Balanced s) (hst : u.stages s = (w.stages s).addEvent event)
    (hq : ∀ p, (u.pools p).runQueue.count s = (w.pools p).runQueue.count s)
    (hpend : u.pending s = w.pending s + (w.stages s).connected.toNat)
    (hpop : u.popped s = w.popped s) (hproc : u.processing s = w.processing s) : u.Balanced s := by
  have htok : u.tokens s = w.tokens s := tokens_congr (by rw [hst]; rfl) hq
  have href := hw.ref
  have hlen := hw.len
  constructor
  · rw [hst]
    intro p hp
    rw [hq]
    exact hw.elsewhere p hp
  · rw [hst, htok, hpend, hpop, hproc]
    show (if (w.stages s).connected then (w.stages s).eventRef + 1 else (w.stages s).eventRef) = _
    rcases (w.stages s).connected <;> simp <;> omega
  · rw [hst, htok, hpend, hpop]
    show _ ≤ ((w.stages s).eventList ++ [event]).length
    rw [List.length_append, List.length_singleton]
    have := Bool.toNat_le (w.stages s).connected
    omega
  · rw [hst]
    show (w.stages s).entered ++ [event]
      = (w.stages s).removed ++ ((w.stages s).eventList ++ [event])
    rw [hw.order, List.append_assoc]

/-- A schedule call becomes a token. -/
theorem Balanced.push (hw : w.Balanced s) (hst : u.stages s = w.stages s)
    (hp : (w.stages s).thPool = some p)
    (hq : (u.pools p).runQueue.count s = (w.pools p).runQueue.count s + 1)
    (hqs : ∀ q ≠ p, (u.pools q).runQueue.count s = (w.pools q).runQueue.count s)
    (hpend : u.pending s + 1 = w.pending s) (hpop : u.popped s = w.popped s)
    (hproc : u.processing s = w.processing s) : u.Balanced s := by
  have htok : u.tokens s = w.tokens s + 1 := by
    rw [tokens_eq hp, tokens_eq (hst ▸ hp), hq]
  have href := hw.ref
  have hlen := hw.len
  constructor
  · rw [hst]
    intro q hne
    rw [hqs q (by rintro rfl; exact hne hp)]
    exact hw.elsewhere q hne
  · rw [hst]
    omega
  · rw [hst]
    omega
  · rw [hst]
    exact hw.order

/-- A thread takes the stage off the run queue. -/
theorem Balanced.pop (hw : w.Balanced s) (hst : u.stages s = w.stages s)
    (hq : (u.pools p).runQueue.count s + 1 = (w.pools p).runQueue.count s)
    (hqs : ∀ q ≠ p, (u.pools q).runQueue.count s = (w.pools q).runQueue.count s)
    (hpend : u.pending s = w.pending s) (hpop : u.popped s = w.popped s + 1)
    (hproc : u.processing s = w.processing s) : u.Balanced s := by
  have hp : (w.stages s).thPool = some p := by
    by_contra hne
    have := hw.elsewhere p hne
    omega
  have htok : u.tokens s + 1 = w.tokens s := by
    rw [tokens_eq hp, tokens_eq (hst ▸ hp), hq]
  have href := hw.ref
  have hlen := hw.len
  constructor
  · rw [hst]
    intro q hne
    rw [hqs q (by rintro rfl; exact hne hp)]
    exact hw.elsewhere q hne
  · rw [hst]
    omega
  · rw [hst]
    omega
  · rw [hst]
    exact hw.order

/-- A thread that has taken the stage removes an event. -/
theorem Balanced.remove (hw : w.Balanced s) (hr : (w.stages s).removeEvent = some (event, st))
    (hst : u.stages s = st) (hq : u.pools = w.pools) (hpend : u.pending s = w.pending s)
    (hpop : u.popped s + 1 = w.popped s) (hproc : u.processing s = w.processing s + 1) :
    u.Balanced s := by
  unfold SedaStage.removeEvent at hr
  split at hr
  · cases hr
  · rename_i se rest hl
    simp only [Option.some.injEq, Prod.mk.injEq] at hr
    obtain ⟨rfl, rfl⟩ := hr
    have htok : u.tokens s = w.tokens s := tokens_congr (by rw [hst]) fun p => by rw [hq]
    have href := hw.ref
    have hlen := hw.len
    rw [hl, List.length_cons] at hlen
    constructor
    · rw [hst, hq]
      exact hw.elsewhere
    · rw [hst]
      show (w.stages s).eventRef = _
      omega
    · rw [hst]
      show _ ≤ rest.length
      omega
    · rw [hst]
      show (w.stages s).entered = (w.stages s).removed ++ [se] ++ rest
      rw [hw.order, hl, List.append_assoc]
      rfl

/-- A thread releases its event. -/
theorem Balanced.release (hw : w.Balanced s) (hst : u.stages s = (w.stages s).releaseEvent)
    (hq : u.pools = w.pools) (hpend : u.pending s = w.pending s) (hpop : u.popped s = w.popped s)
    (hproc : u.processing s + 1 = w.processing s) : u.Balanced s := by
  have htok : u.tokens s = w.tokens s := tokens_congr (by rw [hst]; rfl) fun p => by rw [hq]
  have href := hw.ref
  constructor
  · rw [hst, hq]
    exact hw.elsewhere
  · rw [hst]
    show (w.stages s).eventRef - 1 = _
    omega
  · rw [hst, htok, hpend, hpop]
    exact hw.len
  · rw [hst]
    exact hw.order

/-- Nothing is under way for a stage whose reference count is zero. -/
theorem Balanced.idle (hw : w.Balanced s) (h0 : (w.stages s).eventRef = 0) :
    (∀ p, (w.pools p).runQueue.count s = 0) ∧ w.pending s = 0 ∧ w.popped s = 0
      ∧ w.processing s = 0 := by
  have href := hw.ref
  refine ⟨fun p => ?_, by omega, by omega, by omega⟩
  by_cases hp : (w.stages s).thPool = some p
  · have := tokens_eq hp
    omega
  · exact hw.elsewhere p hp

/-- A stage with nothing under way is connected, disconnected or given to a pool. -/
theorem Balanced.turn (hw : w.Balanced s) (h0 : (w.stages s).eventRef = 0)
    (hlist : (u.stages s).eventList = (w.stages s).eventList)
    (hentered : (u.stages s).entered = (w.stages s).entered)
    (hremoved : (u.stages s).removed = (w.stages s).removed)
    (hq : ∀ p, (u.pools p).runQueue = (w.pools p).runQueue)
    (href : (u.stages s).eventRef = ↑(u.pending s))
    (hle : u.pending s ≤ (w.stages s).eventList.length)
    (hwork : SameCounts w u (places s)) : u.Balanced s := by
  obtain ⟨hcount, -, hpop, hproc⟩ := hw.idle h0
  have htok : u.tokens s = 0 := by
    unfold tokens
    split
    · rfl
    · rw [hq]
      exact hcount _
  constructor
  · intro p _
    rw [hq]
    exact hcount p
  · rw [htok, href, hwork.popped, hwork.processing, hpop, hproc]
    omega
  · rw [htok, hwork.popped, hpop, hlist]
    omega
  · rw [hentered, hremoved, hlist]
    exact hw.order

/-- A stage for which a schedule call is to be made has a pool and an event. -/
theorem Accounted.callable (hw : w.Accounted s) (hpend : 0 < w.pending s) :
    (w.stages s).thPool ≠ none ∧ (w.stages s).eventList ≠ [] := by
  have href := hw.balanced.ref
  have hlen := hw.balanced.len
  constructor
  · intro hnone
    have := (hw.lived.pooled hnone).2
    omega
  · intro hnil
    rw [hnil, List.length_nil] at hlen
    omega

/-- A thread that has taken a stage off the run queue finds an event there. -/
theorem Accounted.removable (hw : w.Accounted s) (hpop : 0 < w.popped s) :
    ∃ event st, (w.stages s).removeEvent = some (event, st) := by
  have hlen := hw.balanced.len
  unfold SedaStage.removeEvent
  split
  · rename_i hl
    rw [hl, List.length_nil] at hlen
    omega
  · exact ⟨_, _, rfl⟩

/-- A stage of which a thread has an event has a pool. -/
theorem Accounted.pooled (hw : w.Accounted s) (hproc : 0 < w.processing s) :
    (w.stages s).thPool ≠ none := by
  intro hnone
  have href := hw.balanced.ref
  have := (hw.lived.pooled hnone).2
  omega

end SedaWorld

end Longda
