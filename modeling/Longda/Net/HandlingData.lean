import Longda.Lib.Machine
import Mathlib.Data.List.Basic

/-!
# The queue of a data thread

`handlingData` takes a socket off the queue, and with it all the equal ones behind it, before it
calls `sendData` or `recvData` once. Other threads push sockets and the marker of the end whenever
they like. A socket that was pushed is still queued, or it belongs to the batch whose call is about
to start, or a call for it has started since; and behind the marker the thread has nothing left to
do (`handlingData_handles`).
-/

namespace Longda

open Lib

namespace HandlingData

inductive Call where
  | sendData (sock : Int32)
  | recvData (sock : Int32)
  deriving DecidableEq

/-- What happened to the queue and the connections. -/
inductive Event where
  | pushed (sock : Int32)
  | called (call : Call)
  | returned (call : Call)
  deriving DecidableEq

/-- Where the thread is: `start` in the loop over the sleeps, and with the socket it has taken in
the loops below it. It is `undefined` where it looks at the front of an empty queue. -/
inductive Pc where
  | start
  | loop
  | front
  | pop (sock : Int32)
  | check (sock : Int32)
  | merge (sock : Int32)
  | mergeFront (sock : Int32)
  | mergePop (sock : Int32)
  | handle (sock : Int32)
  | handling (sock : Int32)
  | exited
  | undefined
  deriving DecidableEq

/-- The queue and the thread. Of the sockets pushed so far `pops` have been popped, and the last
batch is that of those from `batch` on. -/
structure World where
  sockQ : List Int32 := []
  pc : Pc := .start
  history : List Event := []
  pops : ℕ := 0
  batch : ℕ := 0

inductive Step where
  | push (sock : Int32)
  | run

/-- `sendData` or `recvData`. -/
def handler (isSending : Bool) (sock : Int32) : Call :=
  if isSending then .sendData sock else .recvData sock

namespace World

def at_ (w : World) (pc : Pc) : World := { w with pc := pc }

def push (w : World) (sock : Int32) : World :=
  { w with sockQ := w.sockQ ++ [sock], history := w.history ++ [.pushed sock] }

/-- `pop_front`, for a batch from `batch` on. -/
def popFront (w : World) (batch : ℕ) (pc : Pc) : World :=
  match w.sockQ with
  | [] => w.at_ .undefined
  | _ :: sockQ => { w with sockQ := sockQ, pops := w.pops + 1, batch := batch, pc := pc }

/-- A step of the thread. -/
def run (isSending : Bool) (w : World) : Option World :=
  match w.pc with
  | .start => some (if w.sockQ = [] then w else w.at_ .loop)
  | .loop => some (w.at_ (if w.sockQ = [] then .start else .front))
  | .front => some (w.at_ (w.sockQ.head?.elim .undefined .pop))
  | .pop sock => some (w.popFront w.pops (.check sock))
  | .check sock => some (w.at_ (if sock < 0 then .exited else .merge sock))
  | .merge sock => some (w.at_ (if w.sockQ = [] then .handle sock else .mergeFront sock))
  | .mergeFront sock => some (w.at_ (w.sockQ.head?.elim .undefined fun nextSock =>
      if sock ≠ nextSock then .handle sock else .mergePop sock))
  | .mergePop sock => some (w.popFront w.batch (.merge sock))
  | .handle sock => some { w with
      pc := .handling sock, history := w.history ++ [.called (handler isSending sock)] }
  | .handling sock => some { w with
      pc := .loop, history := w.history ++ [.returned (handler isSending sock)] }
  | .exited => none
  | .undefined => none

def step (isSending : Bool) (w : World) : Step → Option World
  | .push sock => some (w.push sock)
  | .run => w.run isSending

end World

def handlingData (isSending : Bool) : Machine World Step := ⟨World.step isSending⟩

/-- The socket of a batch whose call has not started. -/
def Pc.inBatch : Pc → Option Int32
  | .check sock | .merge sock | .mergeFront sock | .mergePop sock | .handle sock => some sock
  | _ => none

def Event.sock? : Event → Option Int32
  | .pushed sock => some sock
  | _ => none

/-- The sockets that were pushed, in their order. -/
def pushes (history : List Event) : List Int32 := history.filterMap Event.sock?

/-! ## What the steps keep -/

section Inv

variable {isSending : Bool} {w w' : World}

/-- Where the thread is about to look at the front or to pop it, it is there. -/
def World.FrontOk (w : World) : Prop :=
  match w.pc with
  | .front | .mergeFront _ => w.sockQ ≠ []
  | .pop sock | .mergePop sock => w.sockQ.head? = some sock
  | .undefined => False
  | _ => True

/-- The push behind `pre` has been popped for a batch that has not started, or as the marker. -/
def World.Taken (w : World) (pre : List Event) (sock : Int32) : Prop :=
  w.batch ≤ (pushes pre).length ∧ (pushes pre).length < w.pops ∧
    (w.pc.inBatch = some sock ∨ w.pc = .exited ∧ sock < 0 ∧ (pushes pre).length + 1 = w.pops)

structure World.Inv (isSending : Bool) (w : World) : Prop where
  queue : w.sockQ = (pushes w.history).drop w.pops
  pops_le : w.pops ≤ (pushes w.history).length
  batch_le : w.batch ≤ w.pops
  front : w.FrontOk
  check : ∀ sock, w.pc = .check sock →
    w.pops = w.batch + 1 ∧ (pushes w.history)[w.batch]? = some sock
  exited : w.pc = .exited → ∃ sock, sock < 0 ∧ w.pops = w.batch + 1 ∧
    (pushes w.history)[w.batch]? = some sock
  called : ∀ pre sock post, w.history = pre ++ .pushed sock :: post →
    w.pops ≤ (pushes pre).length ∨ w.Taken pre sock ∨ .called (handler isSending sock) ∈ post
  returned : ∀ pre call post, w.history = pre ++ .called call :: post →
    .returned call ∈ post ∨ ∃ sock, w.pc = .handling sock ∧ call = handler isSending sock

theorem pushes_append (h h' : List Event) : pushes (h ++ h') = pushes h ++ pushes h' :=
  List.filterMap_append

@[simp] theorem length_pushes_pushed (pre : List Event) (sock : Int32) (post : List Event) :
    (pushes pre).length < (pushes (pre ++ .pushed sock :: post)).length := by
  simp [pushes, Event.sock?]

theorem getElem?_pushes (pre : List Event) (sock : Int32) (post : List Event) :
    (pushes (pre ++ .pushed sock :: post))[(pushes pre).length]? = some sock := by
  rw [pushes_append]
  simp [pushes, Event.sock?]

/-- Each of the sockets was pushed at some time. -/
theorem exists_pushed {h : List Event} {k : ℕ} {sock : Int32} (hk : (pushes h)[k]? = some sock) :
    ∃ pre post, h = pre ++ .pushed sock :: post ∧ (pushes pre).length = k := by
  induction h generalizing k with
  | nil => cases hk
  | cons e h ih =>
    cases e with
    | pushed sock' =>
      cases k with
      | zero => exact ⟨[], h, by simpa [pushes, Event.sock?] using hk, rfl⟩
      | succ k =>
        obtain ⟨pre, post, rfl, hlen⟩ := ih (show (pushes h)[k]? = some sock from hk)
        exact ⟨.pushed sock' :: pre, post, rfl, congrArg Nat.succ hlen⟩
    | called call | returned call =>
      obtain ⟨pre, post, rfl, hlen⟩ := ih (show (pushes h)[k]? = some sock from hk)
      exact ⟨_ :: pre, post, rfl, hlen⟩

/-- An event at the end of a history is the one in question, or stands behind it. -/
theorem concat_eq {h pre post : List Event} {e e' : Event} (heq : h ++ [e] = pre ++ e' :: post) :
    (e = e' ∧ post = [] ∧ h = pre) ∨ ∃ post', post = post' ++ [e] ∧ h = pre ++ e' :: post' := by
  rcases List.eq_nil_or_concat post with rfl | ⟨post', last, rfl⟩
  · obtain ⟨rfl, hlast⟩ := List.append_inj' heq rfl
    exact .inl ⟨List.singleton_inj.1 hlast, rfl, rfl⟩
  · rw [List.concat_eq_append, ← List.cons_append, ← List.append_assoc] at heq
    obtain ⟨rfl, hlast⟩ := List.append_inj' heq rfl
    obtain rfl := List.singleton_inj.1 hlast
    exact .inr ⟨post', List.concat_eq_append, rfl⟩

theorem World.Inv.start : World.Inv isSending {} where
  queue := rfl
  pops_le := Nat.le_refl 0
  batch_le := Nat.le_refl 0
  front := trivial
  check := nofun
  exited := nofun
  called pre sock post h := by simp at h
  returned pre call post h := by simp at h

/-- What concerns pushes and calls stays with another event. -/
theorem World.Inv.called_concat (h : w.Inv isSending) (e : Event) {pre : List Event} {sock : Int32}
    {post : List Event} (heq : w.history ++ [e] = pre ++ .pushed sock :: post) :
    w.pops ≤ (pushes pre).length ∨ w.Taken pre sock ∨ .called (handler isSending sock) ∈ post := by
  rcases concat_eq heq with ⟨-, -, rfl⟩ | ⟨post', rfl, hhistory⟩
  · exact .inl h.pops_le
  · exact (h.called pre sock post' hhistory).imp id (.imp id (List.mem_append_left _))

theorem World.Inv.push (h : w.Inv isSending) (sock : Int32) : (w.push sock).Inv isSending where
  queue := by
    simp only [World.push, pushes_append, h.queue]
    rw [List.drop_append_of_le_length h.pops_le]
    rfl
  pops_le := by
    simp only [World.push, pushes_append, List.length_append]
    exact Nat.le_trans h.pops_le (Nat.le_add_right _ _)
  batch_le := h.batch_le
  front := by
    have hfront := h.front
    unfold World.FrontOk World.push at *
    cases hpc : w.pc <;> simp_all
  check sock' hpc := by
    obtain ⟨hpops, hsock⟩ := h.check sock' hpc
    obtain ⟨hlt, -⟩ := List.getElem?_eq_some_iff.1 hsock
    refine ⟨hpops, ?_⟩
    simp only [World.push, pushes_append]
    rw [List.getElem?_append_left hlt, hsock]
  exited hpc := by
    obtain ⟨m, hm, hpops, hsock⟩ := h.exited hpc
    obtain ⟨hlt, -⟩ := List.getElem?_eq_some_iff.1 hsock
    refine ⟨m, hm, hpops, ?_⟩
    simp only [World.push, pushes_append]
    rw [List.getElem?_append_left hlt, hsock]
  called pre sock' post heq := h.called_concat _ heq
  returned pre call post heq := by
    rcases concat_eq heq with ⟨heq, -⟩ | ⟨post', rfl, hhistory⟩
    · cases heq
    · exact (h.returned pre call post' hhistory).imp (List.mem_append_left _) id

/-- The thread goes on without touching the queue. -/
theorem World.Inv.move (h : w.Inv isSending) {pc pc' : Pc} (hpc : w.pc = pc)
    (hfront : (w.at_ pc').FrontOk) (hbatch : pc'.inBatch = pc.inBatch)
    (hcheck : ∀ sock, pc' ≠ .check sock) (hexited : pc ≠ .exited) (hexited' : pc' ≠ .exited)
    (hhandling : ∀ sock, pc ≠ .handling sock) : (w.at_ pc').Inv isSending where
  queue := h.queue
  pops_le := h.pops_le
  batch_le := h.batch_le
  front := hfront
  check sock hpc := absurd hpc (hcheck sock)
  exited hpc := absurd hpc hexited'
  called pre sock post heq := by
    refine (h.called pre sock post heq).imp id (.imp (fun ⟨hle, hlt, htaken⟩ => ?_) id)
    rw [hpc] at htaken
    exact ⟨hle, hlt, .inl (hbatch.trans (htaken.resolve_right fun ht => hexited ht.1))⟩
  returned pre call post heq := (h.returned pre call post heq).imp id fun ⟨sock, hsock, _⟩ =>
    absurd (hpc.symm.trans hsock) (hhandling sock)

/-- A socket is popped for a batch, which is its own or the one that there is for it. -/
theorem World.Inv.popFront (h : w.Inv isSending) {sock : Int32} {sockQ : List Int32}
    (hq : w.sockQ = sock :: sockQ) {batch : ℕ} {pc : Pc} (hbatch : batch ≤ w.pops)
    (hpc : pc.inBatch = some sock) (hcheck : ∀ sock', pc = .check sock' → batch = w.pops)
    (hfront : ({ w with sockQ := sockQ, pc := pc } : World).FrontOk) (hexited : pc ≠ .exited)
    (hhandling : ∀ sock', w.pc ≠ .handling sock')
    (htaken : ∀ pre sock', w.Taken pre sock' → batch ≤ (pushes pre).length ∧ sock' = sock) :
    (w.popFront batch pc).Inv isSending := by
  have hdrop := h.queue.symm.trans hq
  have hsock : (pushes w.history)[w.pops]? = some sock := by
    rw [← List.head?_drop, hdrop]
    rfl
  obtain ⟨hlt, -⟩ := List.getElem?_eq_some_iff.1 hsock
  have hpop : w.popFront batch pc =
      { w with sockQ := sockQ, pops := w.pops + 1, batch := batch, pc := pc } := by
    unfold World.popFront
    rw [hq]
  rw [hpop]
  refine ⟨?_, hlt, Nat.le_succ_of_le hbatch, hfront, fun sock' hpc' => ?_,
    fun hpc' => absurd hpc' hexited, fun pre sock' post heq => ?_, fun pre call post heq => ?_⟩
  · rw [← List.drop_drop, hdrop]
    rfl
  · obtain rfl := hcheck sock' hpc'
    subst hpc'
    exact ⟨rfl, hsock.trans hpc.symm⟩
  · rcases h.called pre sock' post heq with hqueued | ht | hcalled
    · obtain hlt | hle := Nat.lt_or_ge w.pops (pushes pre).length
      · exact .inl hlt
      · have hk : (pushes pre).length = w.pops := Nat.le_antisymm hle hqueued
        have hsame : some sock' = some sock := by
          rw [← hsock, ← hk, heq, getElem?_pushes]
        exact .inr (.inl ⟨hk ▸ hbatch, Nat.lt_succ_of_le hle, .inl (hpc.trans hsame.symm)⟩)
    · obtain ⟨hle, rfl⟩ := htaken pre sock' ht
      exact .inr (.inl ⟨hle, Nat.lt_succ_of_lt ht.2.1, .inl hpc⟩)
    · exact .inr (.inr hcalled)
  · exact (h.returned pre call post heq).imp id fun ⟨sock, hpc', _⟩ => absurd hpc' (hhandling sock)

/-- A call starts or returns. The one that starts is that of the batch. -/
theorem World.Inv.call (h : w.Inv isSending) {e : Event} {pc : Pc} (he : e.sock? = none)
    (hbatch : ∀ sock, w.pc.inBatch = some sock → e = .called (handler isSending sock))
    (hexited : w.pc ≠ .exited)
    (hcalled : ∀ call, e = .called call → ∃ sock, pc = .handling sock ∧
      call = handler isSending sock)
    (hreturned : ∀ sock, w.pc = .handling sock → e = .returned (handler isSending sock))
    (hpc : pc = .loop ∨ ∃ sock, pc = .handling sock) :
    World.Inv isSending { w with pc := pc, history := w.history ++ [e] } := by
  have hpushes : pushes (w.history ++ [e]) = pushes w.history := by
    simp [pushes, he]
  refine ⟨?_, ?_, h.batch_le, ?_, ?_, ?_, fun pre sock post heq => ?_, fun pre call post heq => ?_⟩
  · rw [hpushes]
    exact h.queue
  · rw [hpushes]
    exact h.pops_le
  · rcases hpc with rfl | ⟨sock, rfl⟩ <;> trivial
  · rcases hpc with rfl | ⟨sock, rfl⟩ <;> exact nofun
  · rcases hpc with rfl | ⟨sock, rfl⟩ <;> exact nofun
  · rcases concat_eq heq with ⟨rfl, -⟩ | ⟨post', rfl, hhistory⟩
    · cases he
    rcases h.called pre sock post' hhistory with hqueued | ⟨-, -, ht⟩ | hpost
    · exact .inl hqueued
    · have heq := hbatch sock (ht.resolve_right fun ht => hexited ht.1)
      exact .inr (.inr (heq ▸ List.mem_concat_self))
    · exact .inr (.inr (List.mem_append_left _ hpost))
  · rcases concat_eq heq with ⟨rfl, -⟩ | ⟨post', rfl, hhistory⟩
    · exact .inr (hcalled call rfl)
    rcases h.returned pre call post' hhistory with hpost | ⟨sock, hsock, rfl⟩
    · exact .inl (List.mem_append_left _ hpost)
    · exact .inl (hreturned sock hsock ▸ List.mem_concat_self)

/-- The thread has found the marker. -/
theorem World.Inv.exit (h : w.Inv isSending) {sock : Int32} (hpc : w.pc = .check sock)
    (hneg : sock < 0) : (w.at_ .exited).Inv isSending := by
  obtain ⟨hpops, hsock⟩ := h.check sock hpc
  refine ⟨h.queue, h.pops_le, h.batch_le, trivial, nofun, fun _ => ⟨sock, hneg, hpops, hsock⟩,
    fun pre sock' post heq => ?_, fun pre call post heq => ?_⟩
  · refine (h.called pre sock' post heq).imp id (.imp (fun ⟨hle, hlt, ht⟩ => ?_) id)
    have hsame : sock = sock' := by simpa [hpc, Pc.inBatch] using ht
    exact ⟨hle, hlt, .inr ⟨rfl, hsame ▸ hneg, by simp only [World.at_]; omega⟩⟩
  · refine (h.returned pre call post heq).imp id ?_
    rintro ⟨sock', hpc', -⟩
    cases hpc.symm.trans hpc'

theorem World.Inv.run (h : w.Inv isSending) (hs : w.run isSending = some w') :
    w'.Inv isSending := by
  have hfront := h.front
  unfold World.FrontOk at hfront
  unfold World.run at hs
  rcases hpc : w.pc with _ | _ | _ | sock | sock | sock | sock | sock | sock | sock | _ | _ <;>
    simp only [hpc, Option.some.injEq, reduceCtorEq] at hs hfront <;> try subst hs
  · split_ifs
    · exact h
    · exact h.move hpc trivial rfl nofun nofun nofun nofun
  · split_ifs with hq
    · exact h.move hpc trivial rfl nofun nofun nofun nofun
    · exact h.move hpc hq rfl nofun nofun nofun nofun
  · obtain ⟨sock, sockQ, hq⟩ := List.exists_cons_of_ne_nil hfront
    rw [hq]
    exact h.move hpc (by rw [World.FrontOk, World.at_, hq]; rfl) rfl nofun nofun nofun nofun
  · obtain ⟨sockQ, hq⟩ := List.head?_eq_some_iff.1 hfront
    refine h.popFront hq (Nat.le_refl _) rfl (fun _ _ => rfl) trivial nofun (by simp [hpc]) ?_
    rintro pre sock' ⟨-, -, ht⟩
    simp [hpc, Pc.inBatch] at ht
  · split_ifs with hneg
    · exact h.exit hpc hneg
    · exact h.move hpc trivial rfl nofun nofun nofun nofun
  · split_ifs with hq
    · exact h.move hpc trivial rfl nofun nofun nofun nofun
    · exact h.move hpc hq rfl nofun nofun nofun nofun
  · obtain ⟨nextSock, sockQ, hq⟩ := List.exists_cons_of_ne_nil hfront
    rw [hq, List.head?_cons, Option.elim_some]
    split_ifs with hne
    · exact h.move hpc trivial rfl nofun nofun nofun nofun
    · have hsame : nextSock = sock := (not_not.1 hne).symm
      have hok : (w.at_ (.mergePop sock)).FrontOk := by
        rw [World.FrontOk, World.at_, hq, hsame]
        rfl
      exact h.move hpc hok rfl nofun nofun nofun nofun
  · obtain ⟨sockQ, hq⟩ := List.head?_eq_some_iff.1 hfront
    refine h.popFront hq h.batch_le rfl nofun trivial nofun (by simp [hpc]) ?_
    rintro pre sock' ⟨hle, -, ht⟩
    exact ⟨hle, by simpa [hpc, Pc.inBatch, eq_comm] using ht⟩
  · refine h.call rfl ?_ (by simp [hpc]) ?_ (by simp [hpc]) (.inr ⟨sock, rfl⟩)
    · simp [hpc, Pc.inBatch]
    · exact fun call hcall => ⟨sock, rfl, (Event.called.inj hcall).symm⟩
  · exact h.call rfl (by simp [hpc, Pc.inBatch]) (by simp [hpc]) nofun (by simp [hpc]) (.inl rfl)

theorem run_inv {steps : List Step} (hrun : (handlingData isSending).run {} steps = some w) :
    w.Inv isSending := by
  refine (handlingData isSending).run_inv_of_step ?_ steps .start hrun
  intro u l u' h hs
  cases l with
  | push sock => exact Option.some.inj hs ▸ h.push sock
  | run => exact h.run hs

/-- A call that started and has returned. -/
def Handled (call : Call) (history : List Event) : Prop :=
  ∃ pre post, history = pre ++ .called call :: post ∧ .returned call ∈ post

/-- A socket that was pushed is still queued, or was popped for the batch whose call is about to
start, or a call for it has started since it was pushed. When the thread has ended, all that was
pushed before the marker has been handled. -/
theorem handlingData_handles (isSending : Bool) {steps : List Step} {w : World}
    (hrun : (handlingData isSending).run {} steps = some w) :
    (∀ pre sock post, w.history = pre ++ .pushed sock :: post → ¬ sock < 0 →
      (w.pops ≤ (pushes pre).length ∧ w.sockQ[(pushes pre).length - w.pops]? = some sock) ∨
      (w.batch ≤ (pushes pre).length ∧ (pushes pre).length < w.pops ∧ w.pc.inBatch = some sock) ∨
      .called (handler isSending sock) ∈ post) ∧
    (w.pc = .exited → ∃ pre sock post, w.history = pre ++ .pushed sock :: post ∧ sock < 0 ∧
      ∀ pre' sock' post', pre = pre' ++ .pushed sock' :: post' →
        Handled (handler isSending sock') (post' ++ .pushed sock :: post)) ∧
    w.pc ≠ .undefined := by
  have h := run_inv hrun
  refine ⟨fun pre sock post heq hsock => ?_, fun hpc => ?_, fun hpc => ?_⟩
  · rcases h.called pre sock post heq with hqueued | ⟨hle, hlt, ht⟩ | hcalled
    · refine .inl ⟨hqueued, ?_⟩
      rw [h.queue, List.getElem?_drop, Nat.add_sub_cancel' hqueued, heq, getElem?_pushes]
    · exact .inr (.inl ⟨hle, hlt, ht.resolve_right fun ht => hsock ht.2.1⟩)
    · exact .inr (.inr hcalled)
  · obtain ⟨sock, hneg, hpops, hsock⟩ := h.exited hpc
    obtain ⟨pre, post, heq, hlen⟩ := exists_pushed hsock
    refine ⟨pre, sock, post, heq, hneg, ?_⟩
    rintro pre' sock' post' rfl
    rw [List.append_assoc, List.cons_append] at heq
    have hlt := length_pushes_pushed pre' sock' post'
    rcases h.called pre' sock' _ heq with hqueued | ⟨hle, -⟩ | hcalled
    · omega
    · omega
    · obtain ⟨mid, mid', hmid⟩ := List.append_of_mem hcalled
      refine ⟨mid, mid', hmid, ?_⟩
      rw [hmid, ← List.cons_append, ← List.append_assoc] at heq
      exact (h.returned _ _ mid' heq).resolve_right fun ⟨_, hpc', _⟩ => by cases hpc.symm.trans hpc'
  · have hfront := h.front
    rw [World.FrontOk, hpc] at hfront
    exact hfront

end Inv

/-- A socket is pushed again when its batch is complete but its call has not started. -/
def lateSteps : List Step :=
  .push 5 :: .push 5 :: List.replicate 9 .run ++ .push 5 :: .run :: .push 7 :: .push (-1) ::
    List.replicate 21 .run

theorem handlingData_handles_late : ∃ w, (handlingData true).run {} lateSteps = some w ∧
    w.pc = .exited ∧
    (∀ pre sock post, w.history = pre ++ .pushed sock :: post → ¬ sock < 0 →
      (w.pops ≤ (pushes pre).length ∧ w.sockQ[(pushes pre).length - w.pops]? = some sock) ∨
      (w.batch ≤ (pushes pre).length ∧ (pushes pre).length < w.pops ∧ w.pc.inBatch = some sock) ∨
      .called (handler true sock) ∈ post) ∧
    (w.pc = .exited → ∃ pre sock post, w.history = pre ++ .pushed sock :: post ∧ sock < 0 ∧
      ∀ pre' sock' post', pre = pre' ++ .pushed sock' :: post' →
        Handled (handler true sock') (post' ++ .pushed sock :: post)) ∧
    w.pc ≠ .undefined := by
  obtain ⟨w, hw⟩ : ∃ w, (handlingData true).run {} lateSteps = some w := ⟨_, rfl⟩
  have hpc : ((handlingData true).run {} lateSteps).map World.pc = some .exited := by decide
  rw [hw] at hpc
  exact ⟨w, hw, Option.some.inj hpc, handlingData_handles true hw⟩

end HandlingData

end Longda
