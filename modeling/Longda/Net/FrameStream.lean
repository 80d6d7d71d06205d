import Longda.Lib.Pieces
import Longda.Net.Posting
import Longda.Net.SendOrder

/-!
# A stream of frames

How a connection takes frames of one kind is a `FrameProtocol`: the pieces of a frame, what holds
between frames and within one, and what a whole frame has done. A stream of such frames may be cut
by the kernel in any way, and end anywhere: at any time the connection has taken the first of the
frames and is within the next, and when the stream is used up the next is not all in it
(`frames_received`). Behind a sender the stream is what has been written of the batches posted
(`frames_end_to_end`).
-/

namespace Longda

open Lib

/-- The connection waits for a header. -/
structure Waiting (w : World) : Prop where
  next : w.mNextRecvPart = .HEADER
  queue : w.mRecvQ = [prepareRecvHeader]

theorem Connected.waiting {w : World} (h : Connected w) : Waiting w := by
  obtain ⟨w₀, hn, hq, hc⟩ := h
  rw [← ends_iff_ok] at hc
  simp only [onConnect, ends_bind, ends_postRecv, ends_modifyCb, true_and] at hc
  subst hc
  exact ⟨hn, by simp [hq]⟩

/-- The connection after an RPC header. -/
def World.headed (w : World) (hdr : PackHeader) : World :=
  { w with
    mNextRecvPart := .MESSAGE
    mRecvQ := [prepareRecvHeader.renew hdr.mMsgLen.toNat]
    mRecvCb := { attLen := hdr.mAttLen.toUInt32, fileLen := hdr.mFileLen }
    news := w.news + 1 }

theorem deliver_header {env : Env} {w : World} {hdr : PackHeader} (hmem : ∀ k, env.mem k = true)
    (hw : Waiting w) (hrpc : hdr.isRpc = true) :
    (deliver env).step w hdr.encode = some (w.headed hdr) := by
  have hlen : hdr.encode.length = prepareRecvHeader.size := by simp [prepareRecvHeader]
  have hstep := (deliver_exists_iff env hw.queue hlen (P := fun t => w.headed hdr = t)).2
  obtain ⟨t, ht, rfl⟩ := hstep (by
    simp only [recvCallback, ends_bind, ends_getNextRecv, hw.next, recvHeaderCb, ends_ASSERT,
      IoVec.fill_size, IoVec.fill_alloc, IoVec.fill_base, PackHeader.decode_encode, hrpc, if_true,
      ends_modifyCb, ends_setNextRecv, repostIoVec, ends_newChar, hmem, ends_postRecv, ends_pure,
      prepareRecvHeader, beq_self_eq_true, List.nil_append]
    rfl)
  exact ht

theorem renew_header {iov : IoVec} (hsys : iov.alloc = .SYS_ALLOC) :
    iov.renew HDR_LEN = prepareRecvHeader := by
  simp [IoVec.renew, prepareRecvHeader, hsys]

/-- How a connection takes frames of a kind. -/
structure FrameProtocol (env : Env) (φ : Type*) where
  /-- What each vector receives. -/
  pieces : φ → List (List UInt8)
  Between : World → Prop
  waiting : ∀ {w}, Between w → Waiting w
  /-- What holds from the beginning of a frame, which it is told of, to its last piece. -/
  Within : World → World → Prop
  within_refl : ∀ w, Within w w
  Taken : World → φ → World → Prop
  leads : ∀ w f, Between w → ∃ t, (deliver env).Leads (Within w) w (pieces f) t ∧ Between t
    ∧ Taken w f t

namespace FrameProtocol

variable {env : Env} {φ : Type*} (P : FrameProtocol env φ)

def wire (f : φ) : List UInt8 := (P.pieces f).flatten

/-- The frames `done` have been taken one after the other, and the connection is at the beginning of
a frame or within it. -/
def Reached (w : World) (done : List φ) (t : World) : Prop :=
  ∃ u, Machine.Rounds P.Taken w done u ∧ P.Between u ∧ P.Within u t

variable {P} {w : World} {fs : List φ}

theorem flatMap_wire (fs : List φ) : fs.flatMap P.wire = (fs.flatMap P.pieces).flatten := by
  rw [List.flatMap_def, List.flatMap_def, List.flatten_flatten, List.map_map]
  rfl

/-- The frames that some of the pieces are of. -/
theorem exists_frames (hw : P.Between w) {ls : List (List UInt8)}
    (hl : ls <+: fs.flatMap P.pieces) :
    ∃ done todo u t begun, fs = done ++ todo ∧ ls = done.flatMap P.pieces ++ begun
      ∧ Machine.Rounds P.Taken w done u ∧ P.Between u ∧ (deliver env).run w ls = some t
      ∧ (deliver env).run u begun = some t ∧ P.Within u t ∧ (todo = [] → begun = [])
      ∧ ∀ f ∈ todo.head?, begun <+: P.pieces f ∧ begun ≠ P.pieces f :=
  Machine.exists_rounds P.leads P.within_refl hw hl

/-- A connection waits for more than is there. -/
theorem waits_for_more (hw : P.Between w) {cut : List (List UInt8)} {rest : List UInt8}
    (hcut : cut <+: fs.flatMap P.pieces)
    (hnext : ∀ p, cut ++ [p] <+: fs.flatMap P.pieces → rest.length < p.length)
    (hall : cut = fs.flatMap P.pieces → rest = []) {t : World}
    (hrun : (deliver env).run w cut = some t) : ∀ v ∈ t.mRecvQ.head?, rest.length < v.size := by
  intro v hv
  obtain ⟨_ | ⟨p, more⟩, hmore⟩ := hcut
  · obtain ⟨done, todo, u, t', begun, rfl, hsplit, -, hu, hrun', hbegun, -, hend, hlast⟩ :=
      exists_frames hw (List.prefix_refl (fs.flatMap P.pieces))
    rw [List.append_nil] at hmore
    obtain rfl : t = t' := Option.some.inj (hrun.symm.trans (hmore ▸ hrun'))
    -- no frame is under way
    have htodo : todo = [] := by
      rcases todo with _ | ⟨f, todo⟩
      · rfl
      · rw [List.flatMap_append, List.append_right_inj] at hsplit
        obtain ⟨hpre, hne⟩ := hlast f rfl
        rw [← hsplit, List.flatMap_cons] at hpre hne
        exact absurd (hpre.eq_of_length_le (by simp)) hne
    obtain rfl := hend htodo
    obtain rfl : u = t := Option.some.inj hbegun
    obtain rfl : prepareRecvHeader = v := by simpa [(P.waiting hu).queue] using hv
    rw [hall hmore]
    decide
  · have hp : cut ++ [p] <+: fs.flatMap P.pieces := ⟨more, by simp [← hmore]⟩
    obtain ⟨-, -, -, t', -, -, -, -, -, hrun', -⟩ := exists_frames hw hp
    rw [Machine.run_append, hrun, Option.bind_some, Machine.run_cons] at hrun'
    obtain ⟨t'', hstep, -⟩ := Option.bind_eq_some_iff.1 hrun'
    obtain ⟨v', -, hq, hlen, -⟩ := deliver_posts hstep
    obtain rfl : v' = v := by
      rw [hq] at hv
      exact Option.some.inj hv
    exact hlen ▸ hnext p hp

/-- At any time the frames taken are the first of those sent, each once and in order, and all of
them are in the stream; when the connection has come to the end of the stream, the next frame is not
all in it. -/
theorem frames_received (hw : P.Between w) (fs : List φ) {stream : List UInt8}
    (hstream : stream <+: fs.flatMap P.wire) {steps : List RecvStep} {s : Receiver Unit}
    (hrun : (receiving (w.posting env)).run (w.receiver stream) steps = some s)
    (hs : s.broken = false) : ∃ done todo t, fs = done ++ todo ∧ done.flatMap P.wire <+: stream
      ∧ w.after env s.completed = some t ∧ P.Reached w done t
      ∧ (s.Exhausted → ∀ f ∈ todo.head?, ¬ (done ++ [f]).flatMap P.wire <+: stream) := by
  rw [flatMap_wire] at hstream
  obtain ⟨cut, rest, hcut, rfl, hnext, hall⟩ := exists_cut hstream
  obtain ⟨-, -, -, t, -, -, -, -, -, htaken, -⟩ := exists_frames hw hcut
  obtain ⟨hfirst, hend⟩ :=
    completed_pieces htaken (waits_for_more hw hcut hnext hall htaken) hrun hs
  obtain ⟨done, todo, u, t, begun, rfl, hsplit, hrounds, hu, hafter, -, hwithin, -, hlast⟩ :=
    exists_frames hw (hfirst.trans hcut)
  refine ⟨done, todo, t, rfl, ?_, hafter, ⟨u, hrounds, hu, hwithin⟩, fun he f hf hwhole => ?_⟩
  · rw [flatMap_wire]
    have hdone : done.flatMap P.pieces <+: cut := (List.prefix_append _ _).trans (hsplit ▸ hfirst)
    exact hdone.flatten.trans (List.prefix_append _ _)
  · obtain ⟨⟨_ | ⟨p, more⟩, hmore⟩, hne⟩ := hlast f hf
    · exact hne (by simpa using hmore)
    · rw [hend he] at hsplit
      have hp : cut ++ [p] <+: (done ++ todo).flatMap P.pieces := by
        rcases todo with _ | ⟨g, todo⟩
        · cases hf
        · obtain rfl : g = f := Option.some.inj hf
          exact ⟨more ++ todo.flatMap P.pieces, by simp [hsplit, ← hmore]⟩
      have hlt := hnext p hp
      have hlen := hwhole.length_le
      simp only [List.flatMap_append, flatMap_wire done, hsplit, List.flatten_append,
        List.length_append, List.flatMap_singleton, wire, ← hmore, List.flatten_cons] at hlen
      omega

/-! ## Behind a sender -/

/-- The frames are those that the batches put on the connection. -/
def Frames (P : FrameProtocol env φ) (files : Files) {β : Type*} (batch : β → List SendVec)
    (Carried : β → φ → Prop) : Prop :=
  ∀ b, ∃ f, Carried b f ∧ P.wire f = Longda.wire files (batch b)

theorem flatMap_wire_map {files : Files} {β : Type*} {batch : β → List SendVec} {frame : β → φ}
    (h : ∀ b, P.wire (frame b) = Longda.wire files (batch b)) (bs : List β) :
    (bs.map frame).flatMap P.wire = Longda.wire files (bs.flatMap batch) := by
  induction bs with
  | nil => rfl
  | cons b bs ih =>
    rw [List.map_cons, List.flatMap_cons, List.flatMap_cons, Sending.wire_append, ih, h]

/-- What has arrived is a beginning of what has been written of the batches posted, and the frames
taken are the first of the batches. -/
theorem frames_end_to_end {files : Files} {β : Type*} {batch : β → List SendVec}
    {Carried : β → φ → Prop} (hframes : P.Frames files batch Carried) (bs : List β)
    {sendSteps : List SendStep} {s : Sending} (hsend : (sending files).run {} sendSteps = some s)
    (hfailed : s.failed = false) (hposted : s.posted.map Posted.vec = bs.flatMap batch)
    {stream : List UInt8} (harrived : stream <+: s.written) (hw : P.Between w)
    {recvSteps : List RecvStep} {r : Receiver Unit}
    (hrecv : (receiving (w.posting env)).run (w.receiver stream) recvSteps = some r)
    (hr : r.broken = false) : ∃ done todo fs t, bs = done ++ todo ∧ List.Forall₂ Carried done fs
      ∧ w.after env r.completed = some t ∧ P.Reached w fs t
      ∧ Longda.wire files (done.flatMap batch) <+: stream
      ∧ (r.Exhausted → ∀ b ∈ todo.head?,
        ¬ Longda.wire files ((done ++ [b]).flatMap batch) <+: stream) := by
  choose frame hcarried hwire using hframes
  have hacc : s.Accounted files := ((sending files).run_inv_of_step
    (fun _ _ _ hs h => Sending.inOrder_step hs h) sendSteps (Sending.inOrder_start files) hsend).2.2
  have hstream : stream <+: (bs.map frame).flatMap P.wire := by
    rw [flatMap_wire_map hwire, ← hposted]
    exact harrived.trans (hacc.wired hfailed)
  obtain ⟨done, todo, t, hsplit, hdone, hafter, hreached, hend⟩ :=
    frames_received hw (bs.map frame) hstream hrecv hr
  obtain ⟨done, todo, rfl, rfl, rfl⟩ := List.map_eq_append_iff.1 hsplit
  refine ⟨done, todo, done.map frame, t, rfl,
    List.forall₂_map_right_iff.2 (List.forall₂_same.2 fun b _ => hcarried b), hafter, hreached,
    flatMap_wire_map hwire done ▸ hdone, fun he b hb => ?_⟩
  rw [← flatMap_wire_map hwire, List.map_append]
  exact hend he (frame b) (by simpa using ⟨b, hb, rfl⟩)

end FrameProtocol

end Longda
