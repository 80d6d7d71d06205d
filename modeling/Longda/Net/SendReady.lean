import Longda.Net.SendProgress

/-!
# The flag and the edge

The kernel reports once that a socket is writable again, and the epoll thread then sets
`mReadyToSend`. A sender that met `EAGAIN` clears the flag, so while it is false, or about to be,
the socket is full, or there is an edge to report, or the epoll thread is about to set the flag
(`Awake`). Only a flag that is set between the `EAGAIN` and the clearing is lost, and with it the
edge: the rest of the queue is then never sent.
-/

namespace Longda

open Lib

def SendStep.setsFlag : SendStep → Bool
  | .setReadyToSend => true
  | _ => false

namespace Sending

/-- There are vectors to send and nothing will send them. -/
structure Stalled (s : Sending) : Prop where
  live : s.deleted = false ∧ s.mCleaning = false
  unsent : s.mCurSendBlock ≠ none ∨ s.mSendQ ≠ []
  writable : s.writable = true
  reported : s.edge = false ∧ s.waker = .idle
  unqueued : s.sockQ = 0
  unused : s.waiting = 0 ∧ s.holder = none
  flag : s.mReadyToSend = false

/-- The epoll thread does not set the flag between an `EAGAIN` and the clearing of the flag. -/
def FlagInOrder (s : Sending) (l : SendStep) : Prop := l.setsFlag = true → s.holder ≠ some .full

instance (s : Sending) (l : SendStep) : Decidable (s.FlagInOrder l) :=
  inferInstanceAs (Decidable (_ → _))

/-- Where the flag does not stand, something will set it. -/
def Awake (s : Sending) : Prop :=
  s.mCleaning = false → s.mReadyToSend = false ∨ s.holder = some .full →
    s.writable = false ∨ s.edge = true ∨ s.waker = .setReady

variable {s t : Sending} {files : Files} {l : SendStep}

/-- A step that leaves the flag, the socket and the epoll thread alone, and the holder not behind
an `EAGAIN`. -/
theorem Awake.congr (hs : s.Awake) (hclean : t.mCleaning = s.mCleaning)
    (hflag : t.mReadyToSend = s.mReadyToSend) (hholder : t.holder ≠ some .full)
    (hw : t.writable = s.writable) (he : t.edge = s.edge) (hk : t.waker = s.waker) : t.Awake := by
  intro hc h
  rw [hw, he, hk]
  exact hs (hclean ▸ hc) (.inl (hflag ▸ h.resolve_right hholder))

theorem awake_step (hs : s.Awake) (hc : s.FlagInOrder l) (h : SendMove files s l t) : t.Awake := by
  cases h with
  | postSend | prepareSend | sendData | sendProgress => exact hs
  | lock | unready | noVec | enter | done | refuse | attempt | sent | error | complete =>
    exact hs.congr rfl rfl (by simp [atStage, accept, invoke]) rfl rfl rfl
  | empty | take | goRound | goOut => exact hs.congr rfl rfl (by simp [atStage]) rfl rfl rfl
  | endCallback hholder =>
    refine hs.congr rfl rfl ?_ rfl rfl rfl
    simp only [atStage]
    split_ifs <;> simp
  | eagain hholder hfull => exact fun _ _ => .inl hfull
  | clearReady hholder => exact fun hclean _ => hs hclean (.inr hholder)
  | setCleaning => exact fun hclean => nomatch hclean
  | cleanup how hclean => exact fun h => absurd (hclean.symm.trans h) (by simp)
  | socketFull => exact fun _ _ => .inl rfl
  | socketWritable => exact fun _ _ => .inr (.inl rfl)
  | epollWait hedge hwaker => exact fun hclean _ => .inr (.inr (if_neg (by simpa using hclean)))
  | setReadyToSend hwaker =>
    exact fun _ h => h.elim (fun h => nomatch h) fun h => absurd h (hc rfl)
  | pushSock hwaker =>
    intro hclean h
    rcases hs hclean h with h | h | h
    · exact .inl h
    · exact .inr (.inl h)
    · rw [hwaker] at h
      cases h

theorem Awake.not_stalled (hs : s.Awake) : ¬ s.Stalled := by
  intro h
  rcases hs h.live.2 (.inl h.flag) with hw | he | hk
  · exact absurd (h.writable.symm.trans hw) (by simp)
  · exact absurd (he.symm.trans h.reported.1) (by simp)
  · exact absurd (hk.symm.trans h.reported.2) (by simp)

end Sending

/-- While the flag is never set between an `EAGAIN` and its clearing, the vectors to send are never
left on a writable socket. -/
theorem never_stalled (files : Files) {steps : List SendStep} {s : Sending}
    (hrun : (sending files).run {} steps = some s)
    (hflag : (sending files).Meets Sending.FlagInOrder {} steps) : ¬ s.Stalled := by
  have hstart : ({} : Sending).Awake := fun _ _ => .inl rfl
  exact ((sending files).run_inv
    (fun s l t hs hc h => Sending.awake_step hs hc (sendMove_of_step h)) steps hstart hflag
    hrun).not_stalled

/-- The socket becomes writable, and a vector is taken up to its first `send`. -/
def upToSend : List SendStep :=
  [.postSend [oneByte], .socketWritable, .epollWait, .setReadyToSend, .pushSock, .sendData, .lock,
    .test, .next, .unlock, .lock, .test, .loop]

/-- The socket is full, and writable again after the flag is cleared. -/
def refilled : List SendStep :=
  upToSend ++ [.socketFull, .eagain, .clearReady, .unlock, .socketWritable]

theorem never_stalled_refilled :
    ∃ s, (sending fun _ => none).run {} refilled = some s ∧ ¬ s.Stalled := by
  obtain ⟨s, hs⟩ : ∃ s, (sending fun _ => none).run {} refilled = some s := ⟨_, rfl⟩
  exact ⟨s, hs, never_stalled _ hs (by decide)⟩

/-- The socket is writable again before the flag is cleared. -/
theorem stalled_flagLost : ∃ s, (sending fun _ => none).run {}
    (upToSend ++ [.socketFull, .eagain, .socketWritable, .epollWait, .setReadyToSend, .pushSock,
      .clearReady, .unlock, .sendData, .lock, .test, .unlock]) = some s ∧ s.Stalled :=
  ⟨_, rfl, ⟨rfl, rfl⟩, .inl (Option.some_ne_none _), rfl, ⟨rfl, rfl⟩, rfl, ⟨rfl, rfl⟩, rfl⟩

end Longda
