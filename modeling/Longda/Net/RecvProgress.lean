import Longda.Lib.Machine
import Longda.Net.RecvData

/-!
# Receiving under any segmentation

`Receiver` is `recvProgress` on vectors and a callback of any kind: the callback of a vector posts
further vectors, as a function of the vectors completed so far. A step is a call of `recvProgress`,
an answer of the kernel to `::recv`, or what the code does between two of these. Whether the kernel
answers with few bytes or many, or with `EAGAIN`, is up to the run.

`Filling` is what the receiver is for, without calls, flags and segments: vectors are filled one
byte after another. It never has a choice, and every run of the receiver is a run of it
(`filling_of_receiving`), so two runs that can go no further have come to the same.
-/

namespace Longda

open Lib

variable {κ : Type*}

/-- A vector to be received into, with the parameter of its callback. -/
structure RecvVec (κ : Type*) extends IoVec where
  param : κ

/-- A vector as it is posted. -/
structure FreshRecv (κ : Type*) extends RecvVec κ where
  fresh : xferred = 0

def RecvVec.got (v : RecvVec κ) (data : List UInt8) : RecvVec κ :=
  { v with toIoVec := v.toIoVec.receive data }

/-- What of the vector is received. -/
def RecvVec.contents (v : RecvVec κ) : List UInt8 := v.base.take v.xferred

/-- A callback: what it posts, given the vectors completed with `DONE` so far. -/
abbrev Posting (κ : Type*) := List (RecvVec κ) → List (FreshRecv κ)

/-- Where a call of `recvProgress` is; `ready` is its argument. -/
inductive RecvStage where
  | idle
  | turn (ready : Bool)
  /-- At the condition of the loop of `recvvecProgress`. -/
  | loop (ready : Bool)
  /-- About to look into `mRecvQ`. -/
  | next (ready : Bool)
  deriving DecidableEq

structure Receiver (κ : Type*) where
  mCurRecvBlock : Option (RecvVec κ) := none
  mRecvQ : List (RecvVec κ) := []
  mReadyRecv : Bool := false
  stage : RecvStage := .idle
  /-- The bytes of the stream that are not received yet. -/
  unread : List UInt8 := []
  /-- The vectors completed with `DONE`, in order. -/
  completed : List (RecvVec κ) := []
  /-- Whether a vector was completed with `ERROR`. -/
  broken : Bool := false

inductive RecvStep where
  | recvProgress (ready : Bool)
  | test
  | recv (n : ℕ)
  | recvNothing (atEnd : SockEnd)
  | complete
  | next

namespace Receiver

/-- The vector that the loop waits for. -/
def pending (s : Receiver κ) : Option (RecvVec κ) := s.mCurRecvBlock.filter fun v => !v.done

/-- `postRecv` with fresh vectors. -/
def post (q : List (RecvVec κ)) (vs : List (FreshRecv κ)) : List (RecvVec κ) :=
  q ++ vs.map FreshRecv.toRecvVec

variable (callback : Posting κ)

def step (s : Receiver κ) : RecvStep → Option (Receiver κ)
  | .recvProgress ready => if s.stage = .idle then some { s with stage := .turn ready } else none
  | .test =>
    match s.stage with
    | .turn ready =>
      some (if s.mReadyRecv || ready then
        { s with
          mReadyRecv := true
          stage := if s.mCurRecvBlock.isSome then .loop ready else .next ready }
      else { s with stage := .idle })
    | _ => none
  | .recv n =>
    match s.stage, s.pending with
    | .loop _, some v =>
      if 0 < n ∧ n ≤ v.remain ∧ n ≤ s.unread.length then
        some { s with mCurRecvBlock := some (v.got (s.unread.take n)), unread := s.unread.drop n }
      else none
    | _, _ => none
  | .recvNothing .again =>
    match s.stage, s.pending with
    | .loop _, some _ => some { s with mReadyRecv := false, stage := .idle }
    | _, _ => none
  -- no byte or another error: the vector is given up, and `recvProgress` returns
  | .recvNothing _ =>
    match s.stage, s.pending with
    | .loop _, some _ => some { s with mCurRecvBlock := none, stage := .idle, broken := true }
    | _, _ => none
  | .complete =>
    match s.stage, s.mCurRecvBlock with
    | .loop ready, some v =>
      if v.done then
        some { s with
          mCurRecvBlock := none
          stage := .next ready
          completed := s.completed ++ [v]
          mRecvQ := post s.mRecvQ (callback (s.completed ++ [v])) }
      else none
    | _, _ => none
  | .next =>
    match s.stage with
    | .next ready =>
      match s.mRecvQ, s.mCurRecvBlock with
      | [], _ => some { s with stage := .idle }
      | v :: q, none => some { s with mCurRecvBlock := some v, mRecvQ := q, stage := .turn ready }
      -- the assertion that there is no current vector fails
      | _ :: _, some _ => none
    | _ => none

/-- A connection with vectors posted and a stream before it. -/
def start (q : List (FreshRecv κ)) (stream : List UInt8) : Receiver κ where
  mRecvQ := post [] q
  unread := stream

/-- The stream is used up, or there is nothing to receive into. -/
def Exhausted (s : Receiver κ) : Prop :=
  s.mCurRecvBlock = none ∧ s.mRecvQ = [] ∨ s.unread = [] ∧ s.pending ≠ none

end Receiver

def receiving (callback : Posting κ) : Machine (Receiver κ) RecvStep where
  step := Receiver.step callback

/-- What each step does, and when it can be taken. -/
inductive RecvMove (callback : Posting κ) (s : Receiver κ) : Receiver κ → Prop
  | call (ready : Bool) (hstage : s.stage = .idle) :
    RecvMove callback s { s with stage := .turn ready }
  | unready {ready : Bool} (hstage : s.stage = .turn ready)
    (hflag : ¬ (s.mReadyRecv || ready) = true) : RecvMove callback s { s with stage := .idle }
  | test {ready : Bool} (hstage : s.stage = .turn ready) : RecvMove callback s { s with
      mReadyRecv := true, stage := if s.mCurRecvBlock.isSome then .loop ready else .next ready }
  | recv {v : RecvVec κ} {ready : Bool} (n : ℕ) (hstage : s.stage = .loop ready)
    (hcur : s.mCurRecvBlock = some v) (hpos : 0 < n) (hrem : n ≤ v.remain)
    (hle : n ≤ s.unread.length) : RecvMove callback s { s with
      mCurRecvBlock := some (v.got (s.unread.take n)), unread := s.unread.drop n }
  | again (hpending : s.pending ≠ none) :
    RecvMove callback s { s with mReadyRecv := false, stage := .idle }
  | giveUp : RecvMove callback s { s with mCurRecvBlock := none, stage := .idle, broken := true }
  | complete {v : RecvVec κ} {ready : Bool} (hstage : s.stage = .loop ready)
    (hcur : s.mCurRecvBlock = some v) (hdone : v.done = true) : RecvMove callback s { s with
      mCurRecvBlock := none
      stage := .next ready
      completed := s.completed ++ [v]
      mRecvQ := Receiver.post s.mRecvQ (callback (s.completed ++ [v])) }
  | empty {ready : Bool} (hstage : s.stage = .next ready) (hq : s.mRecvQ = []) :
    RecvMove callback s { s with stage := .idle }
  | take {v : RecvVec κ} {q : List (RecvVec κ)} {ready : Bool} (hstage : s.stage = .next ready)
    (hq : s.mRecvQ = v :: q) (hcur : s.mCurRecvBlock = none) : RecvMove callback s { s with
      mCurRecvBlock := some v, mRecvQ := q, stage := .turn ready }

theorem Receiver.mCurRecvBlock_of_pending {s : Receiver κ} {v : RecvVec κ}
    (h : s.pending = some v) : s.mCurRecvBlock = some v ∧ v.done = false := by
  simpa [Receiver.pending, Option.filter_eq_some_iff] using h

theorem recvMove_of_step {callback : Posting κ} {s t : Receiver κ} {l : RecvStep}
    (h : (receiving callback).step s l = some t) : RecvMove callback s t := by
  simp only [receiving] at h
  cases l <;> simp only [Receiver.step] at h
  case recvProgress ready =>
    split_ifs at h with hs
    cases h
    exact .call ready hs
  case test =>
    split at h
    · rename_i ready hs
      cases h
      by_cases hr : (s.mReadyRecv || ready) = true
      · rw [if_pos hr]
        exact .test hs
      · rw [if_neg hr]
        exact .unready hs hr
    · cases h
  case recv n =>
    split at h
    · rename_i hs hv
      split_ifs at h with hn
      cases h
      exact .recv n hs (Receiver.mCurRecvBlock_of_pending hv).1 hn.1 hn.2.1 hn.2.2
    · cases h
  case recvNothing atEnd =>
    cases atEnd <;> simp only [] at h <;> split at h <;> cases h
    · exact .again (by simp [*])
    · exact .giveUp
    · exact .giveUp
  case complete =>
    split at h
    · split_ifs at h with hd
      cases h
      exact .complete ‹_› ‹_› hd
    · cases h
  case next =>
    split at h
    · split at h <;> cases h
      · exact .empty ‹_› ‹_›
      · exact .take ‹_› ‹_› ‹_›
    · cases h

/-! ## Filling -/

structure Filling (κ : Type*) where
  current : Option (RecvVec κ)
  queue : List (RecvVec κ)
  unread : List UInt8
  completed : List (RecvVec κ)

/-- The next vector is taken, filled by a byte, or completed. -/
def Filling.step (callback : Posting κ) (f : Filling κ) : Option (Filling κ) :=
  match f.current with
  | none =>
    match f.queue with
    | [] => none
    | v :: q => some { f with current := some v, queue := q }
  | some v =>
    if v.done then
      some { f with
        current := none
        completed := f.completed ++ [v]
        queue := Receiver.post f.queue (callback (f.completed ++ [v])) }
    else match f.unread with
      | [] => none
      | b :: bs => some { f with current := some (v.got [b]), unread := bs }

def filling (callback : Posting κ) : Machine (Filling κ) Unit where
  step f _ := f.step callback

def Receiver.filling (s : Receiver κ) : Filling κ :=
  ⟨s.mCurRecvBlock, s.mRecvQ, s.unread, s.completed⟩

/-! ## The receiver fills -/

theorem RecvVec.got_got (v : RecvVec κ) (data data' : List UInt8) :
    (v.got data).got data' = v.got (data ++ data') := by
  have htake : (v.base.take v.xferred ++ data).take (v.xferred + data.length)
      = v.base.take v.xferred ++ data := List.take_of_length_le (by simp)
  simp only [got, IoVec.receive, htake, List.append_assoc, List.length_append, Nat.add_assoc]

theorem RecvVec.contents_got (v : RecvVec κ) (data : List UInt8) :
    (v.got data).contents = v.contents ++ data :=
  List.take_of_length_le (by simp [got, IoVec.receive])

section Simulation

variable {callback : Posting κ} {s t : Receiver κ} {l : RecvStep}

theorem run_filling_got (q completed : List (RecvVec κ)) : ∀ (n : ℕ) (v : RecvVec κ)
    (unread : List UInt8), n + 1 ≤ v.remain → n + 1 ≤ unread.length →
    (filling callback).run ⟨some v, q, unread, completed⟩ (List.replicate (n + 1) ()) =
      some ⟨some (v.got (unread.take (n + 1))), q, unread.drop (n + 1), completed⟩
  | n, v, [], _, hlen => absurd hlen (by simp)
  | n, v, b :: bs, hrem, hlen => by
    have hdone : v.done = false := by
      simp only [IoVec.remain] at hrem
      simp only [IoVec.done, beq_eq_false_iff_ne]
      omega
    have hstep : (filling callback).step ⟨some v, q, b :: bs, completed⟩ ()
        = some ⟨some (v.got [b]), q, bs, completed⟩ := by
      simp [filling, Filling.step, hdone]
    rw [List.replicate_succ, Machine.run_cons, hstep, Option.bind_some]
    cases n with
    | zero => rfl
    | succ n =>
      have hrem' : n + 1 ≤ (v.got [b]).remain := by
        simp only [IoVec.remain, RecvVec.got, IoVec.receive, List.length_singleton] at hrem ⊢
        omega
      rw [run_filling_got q completed n (v.got [b]) bs hrem' (by simpa using hlen),
        RecvVec.got_got]
      rfl

/-- A step of the receiver that gives up no vector is some steps of filling. -/
theorem filling_move (h : RecvMove callback s t) (ht : t.broken = false) :
    ∃ ks, (filling callback).run s.filling ks = some t.filling := by
  cases h with
  | call | unready | test | again | empty => exact ⟨[], rfl⟩
  | giveUp => cases ht
  | @recv v _ n hstage hcur hpos hrem hle =>
    obtain ⟨m, rfl⟩ := Nat.exists_eq_succ_of_ne_zero hpos.ne'
    refine ⟨List.replicate (m + 1) (), ?_⟩
    rw [Receiver.filling, hcur, run_filling_got _ _ m v s.unread hrem hle]
    rfl
  | complete hstage hcur hdone =>
    exact ⟨[()], by simp [filling, Filling.step, Receiver.filling, hcur, hdone]⟩
  | take hstage hq hcur => exact ⟨[()], by simp [filling, Filling.step, Receiver.filling, hcur, hq]⟩

theorem broken_back (h : RecvMove callback s t) (ht : t.broken = false) : s.broken = false := by
  cases h with
  | giveUp => cases ht
  | _ => exact ht

theorem filling_of_receiving {steps : List RecvStep}
    (hrun : (receiving callback).run s steps = some t)
    (ht : t.broken = false) : ∃ ks, (filling callback).run s.filling ks = some t.filling :=
  (receiving callback).run_sim (filling callback) Receiver.filling
    (fun _ _ _ h ht => broken_back (recvMove_of_step h) ht)
    (fun _ _ _ ht h => filling_move (recvMove_of_step h) ht) steps ht hrun

theorem Receiver.Exhausted.stop (hs : s.Exhausted) :
    (Longda.filling callback).step s.filling () = none := by
  rcases hs with ⟨hcur, hq⟩ | ⟨hun, hp⟩
  · simp [Longda.filling, Filling.step, Receiver.filling, hcur, hq]
  · obtain ⟨v, hv⟩ := Option.ne_none_iff_exists'.1 hp
    obtain ⟨hcur, hd⟩ := Receiver.mCurRecvBlock_of_pending hv
    simp [Longda.filling, Filling.step, Receiver.filling, hcur, hd, hun]

/-- What a call of `recvProgress` that took effect leaves: nothing to receive into, or a vector that
waits for bytes. -/
def Receiver.Rested (s : Receiver κ) : Prop :=
  s.mCurRecvBlock = none ∧ s.mRecvQ = [] ∨ s.pending ≠ none

end Simulation

/-! ## The stream in the vectors -/

/-- The bytes in the vectors completed and in the current one. -/
def Filling.received (f : Filling κ) : List UInt8 :=
  (f.completed ++ f.current.toList).flatMap RecvVec.contents

structure Filling.Sound (stream : List UInt8) (f : Filling κ) : Prop where
  split : f.received ++ f.unread = stream
  full : ∀ v ∈ f.completed, v.contents.length = v.size
  current : ∀ v, f.current = some v → v.contents.length = v.xferred
  queue : ∀ v ∈ f.queue, v.xferred = 0

section Stream

variable {callback : Posting κ} {stream : List UInt8} {f g : Filling κ}

theorem mem_post {q : List (RecvVec κ)} {vs : List (FreshRecv κ)} {v : RecvVec κ}
    (hq : ∀ v ∈ q, v.xferred = 0) (hv : v ∈ Receiver.post q vs) : v.xferred = 0 := by
  rcases List.mem_append.1 hv with hv | hv
  · exact hq v hv
  · obtain ⟨w, -, rfl⟩ := List.mem_map.1 hv
    exact w.fresh

theorem Filling.Sound.step (hf : f.Sound stream) (h : (filling callback).step f () = some g) :
    g.Sound stream := by
  simp only [filling, Filling.step] at h
  rcases hcur : f.current with _ | v <;> simp only [hcur] at h
  · rcases hq : f.queue with _ | ⟨v, q⟩ <;> simp only [hq] at h <;> cases h
    have hv : v.xferred = 0 := hf.queue v (by simp [hq])
    have hno : v.contents = [] := by simp [RecvVec.contents, hv]
    exact {
      split := by
        rw [← hf.split]
        simp [Filling.received, hcur, hno]
      full := hf.full
      current := fun w hw => by
        obtain rfl := Option.some.inj hw
        simp [hno, hv]
      queue := fun w hw => hf.queue w (by simp [hq, hw]) }
  · by_cases hd : v.done = true
    · rw [if_pos hd, Option.some.injEq] at h
      subst h
      exact {
        split := by
          rw [← hf.split]
          simp [Filling.received, hcur]
        full := fun w hw => by
          rcases List.mem_append.1 hw with hw | hw
          · exact hf.full w hw
          · obtain rfl := List.mem_singleton.1 hw
            rw [hf.current w hcur]
            simpa [IoVec.done] using hd
        current := nofun
        queue := fun w hw => mem_post hf.queue hw }
    · rw [if_neg hd] at h
      rcases hun : f.unread with _ | ⟨b, bs⟩ <;> simp only [hun] at h <;> cases h
      exact {
        split := by
          rw [← hf.split]
          simp [Filling.received, hcur, hun, RecvVec.contents_got]
        full := hf.full
        current := fun w hw => by
          obtain rfl := Option.some.inj hw
          rw [RecvVec.contents_got, List.length_append, hf.current v hcur]
          rfl
        queue := hf.queue }

theorem sound_start (q : List (FreshRecv κ)) (stream : List UInt8) :
    (Receiver.start q stream).filling.Sound stream where
  split := by simp [Filling.received, Receiver.filling, Receiver.start]
  full := by simp [Receiver.filling, Receiver.start]
  current := nofun
  queue := fun v hv => mem_post (by simp) hv

theorem sound_of_receiving {q : List (FreshRecv κ)} {steps : List RecvStep} {s : Receiver κ}
    (hrun : (receiving callback).run (Receiver.start q stream) steps = some s)
    (hs : s.broken = false) : s.filling.Sound stream := by
  obtain ⟨ks, hks⟩ := filling_of_receiving hrun hs
  exact (filling callback).run_inv_of_step (fun _ _ _ hf h => hf.step h) ks (sound_start q stream)
    hks

end Stream

/-! ## The vectors as they were posted -/

/-- What a vector is but for the bytes in it. -/
def RecvVec.blank (v : RecvVec κ) : RecvVec κ := { v with base := [], xferred := 0 }

/-- The vectors completed, the current one and those that wait. -/
def Filling.vectors (f : Filling κ) : List (RecvVec κ) :=
  f.completed ++ (f.current.toList ++ f.queue)

/-- What is posted at the start and, behind each vector completed, by the callback. -/
def posted (callback : Posting κ) (q : List (FreshRecv κ)) (completed : List (RecvVec κ)) :
    List (FreshRecv κ) :=
  q ++ completed.inits.tail.flatMap callback

def Filling.AsPosted (callback : Posting κ) (q : List (FreshRecv κ)) (f : Filling κ) : Prop :=
  f.vectors.map RecvVec.blank =
    (posted callback q f.completed).map fun v => v.toRecvVec.blank

section AsPosted

variable {callback : Posting κ} {q : List (FreshRecv κ)} {f g : Filling κ}

theorem posted_concat (completed : List (RecvVec κ)) (v : RecvVec κ) :
    posted callback q (completed ++ [v]) =
      posted callback q completed ++ callback (completed ++ [v]) := by
  have hinits : (completed ++ [v]).inits.tail = completed.inits.tail ++ [completed ++ [v]] := by
    rw [List.inits_append, List.tail_append_of_ne_nil (by cases completed <;> simp)]
    rfl
  simp only [posted, hinits, List.flatMap_append, List.flatMap_singleton, List.append_assoc]

theorem Filling.AsPosted.step (hf : f.AsPosted callback q)
    (h : (filling callback).step f () = some g) : g.AsPosted callback q := by
  simp only [filling, Filling.step] at h
  unfold Filling.AsPosted Filling.vectors at hf ⊢
  rcases hcur : f.current with _ | v <;> simp only [hcur] at h hf
  · rcases hq : f.queue with _ | ⟨v, queue⟩ <;> simp only [hq] at h hf <;> cases h
    exact hf
  · by_cases hd : v.done = true
    · rw [if_pos hd, Option.some.injEq] at h
      subst h
      simp only [posted_concat, List.map_append, ← hf, Receiver.post, List.map_map]
      simp [Function.comp_def]
    · rw [if_neg hd] at h
      rcases hun : f.unread with _ | ⟨b, bs⟩ <;> simp only [hun] at h <;> cases h
      rw [← hf]
      simp [RecvVec.blank, RecvVec.got, IoVec.receive]

theorem asPosted_start (stream : List UInt8) :
    (Receiver.start q stream).filling.AsPosted callback q := by
  simp [Filling.AsPosted, Filling.vectors, posted, Receiver.filling, Receiver.start, Receiver.post,
    Function.comp_def]

end AsPosted

/-- Two runs of the receiver on one stream that can go no further have completed the same vectors
with the same contents, each full, and these are the stream from its beginning. They are the first
of the vectors posted, in the order of the posting. -/
theorem recv_segmentation (callback : Posting κ) (q : List (FreshRecv κ)) (stream : List UInt8)
    {steps steps' : List RecvStep} {s s' : Receiver κ}
    (hrun : (receiving callback).run (Receiver.start q stream) steps = some s)
    (hrun' : (receiving callback).run (Receiver.start q stream) steps' = some s')
    (hs : s.broken = false) (hs' : s'.broken = false)
    (hend : s.Exhausted) (hend' : s'.Exhausted) :
    s.completed = s'.completed ∧ (∀ v ∈ s.completed, v.contents.length = v.size) ∧
      s.filling.received ++ s.unread = stream ∧
      s.filling.vectors.map RecvVec.blank =
        (posted callback q s.completed).map fun v => v.toRecvVec.blank := by
  obtain ⟨ks, hks⟩ := filling_of_receiving hrun hs
  obtain ⟨ks', hks'⟩ := filling_of_receiving hrun' hs'
  have hsame : s.filling = s'.filling :=
    (filling callback).stop_unique hks hend.stop hks' hend'.stop
  have hsound := sound_of_receiving hrun hs
  have hposted : s.filling.AsPosted callback q :=
    (filling callback).run_inv_of_step (fun _ _ _ hf h => hf.step h) ks (asPosted_start stream) hks
  exact ⟨congrArg Filling.completed hsame, hsound.full, hsound.split, hposted⟩

/-- A vector of two bytes. -/
def twoBytes : FreshRecv Unit where
  base := []
  size := 2
  alloc := .SYS_ALLOC
  param := ()
  fresh := rfl

def inOne : List RecvStep := [.recvProgress true, .test, .next, .test, .recv 2, .complete, .next]

/-- The second byte comes after an `EAGAIN`. -/
def inTwo : List RecvStep :=
  [.recvProgress true, .test, .next, .test, .recv 1, .recvNothing .again, .recvProgress true, .test,
    .recv 1, .complete, .next]

theorem recv_segmentation_two : ∃ s s' : Receiver Unit,
    (receiving fun _ => []).run (.start [twoBytes] [1, 2]) inOne = some s ∧
    (receiving fun _ => []).run (.start [twoBytes] [1, 2]) inTwo = some s' ∧
    s.completed = s'.completed ∧ s.filling.vectors.map RecvVec.blank = [twoBytes.toRecvVec] := by
  obtain ⟨s, hrun, hs, hend⟩ : ∃ s, (receiving fun _ => []).run (.start [twoBytes] [1, 2]) inOne
      = some s ∧ s.broken = false ∧ s.Exhausted := ⟨_, rfl, rfl, .inl ⟨rfl, rfl⟩⟩
  obtain ⟨s', hrun', hs', hend'⟩ : ∃ s, (receiving fun _ => []).run (.start [twoBytes] [1, 2])
      inTwo = some s ∧ s.broken = false ∧ s.Exhausted := ⟨_, rfl, rfl, .inl ⟨rfl, rfl⟩⟩
  obtain ⟨hsame, -, -, hposted⟩ := recv_segmentation _ _ _ hrun hrun' hs hs' hend hend'
  exact ⟨s, s', hrun, hrun', hsame, hposted.trans (by simp [posted, RecvVec.blank, twoBytes])⟩

end Longda
