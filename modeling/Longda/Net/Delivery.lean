import Longda.Net.FrameStream
import Longda.Net.RecvFile
import Longda.Net.RspAttach
import Mathlib.Data.List.SplitLengths

/-!
# Requests handed over

A `ReqFrame` is a request on the wire as a connection can take it. From one header to the next it is
received in pieces: the header, the message, the blocks of the attachment and the file. Until the
last of them nothing leaves the connection (`Silent`), and then the request is handed to the next
stage (`HandedOver`).

Of a stream of such frames the connection hands over the first ones, one after the other
(`Requested`).
-/

namespace Longda

open Lib

/-- A request on the wire, with the lengths that its header announces. An attachment has a file
behind it, the file fits one block, and the attachment is of fewer blocks than an `int` counts. -/
structure ReqFrame (env : Env) where
  hdr : PackHeader
  msg : List UInt8
  att : List UInt8
  file : List UInt8
  mId : UInt64
  rpc : hdr.isRpc = true
  msgLen : hdr.mMsgLen.toNat = msg.length
  attLen : hdr.mAttLen.toNat = att.length
  fileLen : hdr.mFileLen.toNat = file.length
  parsed : env.deserialize msg (UInt64.ofNat msg.length).toUInt32.toInt32 = some (.request mId)
  att_lt : att.length < 2 ^ 32
  blocks_lt : env.blocks att.length < 2 ^ 31
  follows : att ≠ [] → file ≠ []
  file_le : file.length ≤ env.gMaxBlockSize

namespace ReqFrame

variable {env : Env} (f : ReqFrame env)

def wire : List UInt8 := f.hdr.encode ++ f.msg ++ f.att ++ f.file

/-- The vectors the attachment is received into. -/
def mems : List VecT := if f.att = [] then [] else env.attachMems f.hdr.mAttLen.toUInt32.toUInt64

def attPieces : List (List UInt8) := (f.mems.map fun v => v.size.toInt.toNat).splitLengths f.att

def filePieces : List (List UInt8) := if f.file = [] then [] else [f.file]

/-- What each vector receives. -/
def pieces : List (List UInt8) := f.hdr.encode :: f.msg :: (f.attPieces ++ f.filePieces)

/-- The event the server makes of the request. -/
def event (w : World) (path : Path) : CommEvent where
  sock := w.mSock
  serverGen := true
  requestId := f.mId.toUInt32
  targetHost := w.peerHost
  request := { message := some (.request f.mId), attachMems := f.mems, attachFilePath := path }

theorem toNat_attLen : f.hdr.mAttLen.toUInt32.toNat = f.att.length := by
  rw [UInt64.toNat_toUInt32, f.attLen]
  exact Nat.mod_eq_of_lt f.att_lt

theorem mems_spec (h : f.att ≠ []) : (∀ v ∈ f.mems, 0 ≤ v.size.toInt) ∧ f.mems.length < 2 ^ 31
    ∧ 0 < f.mems.length ∧ attTotal f.mems = f.att.length := by
  have hn : f.hdr.mAttLen.toUInt32.toUInt64.toNat = f.att.length := by
    rw [UInt32.toNat_toUInt64, f.toNat_attLen]
  have h0 : 0 < f.hdr.mAttLen.toUInt32.toUInt64.toNat := by
    rw [hn]
    exact List.length_pos_iff.2 h
  have hlt := f.blocks_lt
  obtain ⟨hnonneg, hspec⟩ := attachMems_spec env h0 (by rw [hn]; exact f.att_lt)
  obtain ⟨-, -, hpos⟩ := blocks_spec env h0
  rw [hn] at hspec hpos
  rw [if_pos hlt.le] at hspec
  rw [mems, if_neg h]
  exact ⟨hnonneg, by omega, by omega, hspec.2⟩

theorem sum_sizes : (f.mems.map fun v => v.size.toInt.toNat).sum = f.att.length := by
  by_cases h : f.att = []
  · simp [mems, h]
  · exact (f.mems_spec h).2.2.2

theorem flatten_pieces : f.pieces.flatten = f.wire := by
  have hfile : f.filePieces.flatten = f.file := by
    unfold filePieces
    split_ifs with h <;> simp [h]
  rw [pieces, List.flatten_cons, List.flatten_cons, List.flatten_append, attPieces,
    List.flatten_splitLengths _ _ f.sum_sizes.ge, hfile, wire]
  simp only [List.append_assoc]

theorem blockSize_file : env.blockSize f.hdr.mFileLen = f.file.length := by
  have := f.file_le
  rw [Env.blockSize, f.fileLen]
  split_ifs <;> omega

end ReqFrame

/-! ## The stages of a frame -/

/-- Nothing has left the connection, and the events there were are as they were. -/
structure Silent (w t : World) : Prop where
  calls : t.calls = w.calls
  events : ∀ c ≠ w.nextEvent, t.events c = w.events c
  sock : t.mSock = w.mSock
  host : t.peerHost = w.peerHost

theorem Silent.refl (w : World) : Silent w w := ⟨rfl, fun _ _ => rfl, rfl, rfl⟩

section Stages

variable {env : Env} (f : ReqFrame env)

/-- The event of the request is there, and more of the frame is to come. -/
structure Carrying (w t : World) : Prop extends Silent w t where
  nextEvent : t.nextEvent = w.nextEvent + 1
  event : t.events w.nextEvent = f.event w []
  cev : t.mRecvCb.cev = some w.nextEvent
  fileLen : t.mRecvCb.fileLen = f.hdr.mFileLen

/-- The connection waits for attachment bytes in the vectors `todo`. -/
structure AttachmentsLeft (todo : List VecT) (w t : World) : Prop extends Carrying f w t where
  next : t.mNextRecvPart = .ATTACHMENT
  queue : t.mRecvQ = todo.map (IoVec.ofVec · .USER_ALLOC)
  remain : t.mRecvCb.remainVecs.toNat = todo.length

/-- The connection waits for the file. -/
structure FileLeft (w t : World) : Prop extends Carrying f w t where
  next : t.mNextRecvPart = .ATTACHFILE
  queue : t.mRecvQ = [{ base := [], size := f.file.length, alloc := .SYS_ALLOC }]
  remain : t.mRecvCb.remainVecs = env.blockCount t.mRecvCb.fileLen

/-- The request has been handed to the next stage, with its message and its vectors, and its file is
where the event says. -/
structure HandedOver (w : World) (f : ReqFrame env) (t : World) : Prop where
  calls : t.calls = w.calls ++ [.addEvent w.nextEvent]
  nextEvent : t.nextEvent = w.nextEvent + 1
  event : ∃ path, t.events w.nextEvent = f.event w path
    ∧ (f.file ≠ [] → t.localFiles (cStr path) = some f.file)
  events : ∀ c ≠ w.nextEvent, t.events c = w.events c
  sock : t.mSock = w.mSock
  host : t.peerHost = w.peerHost

/-- The event has been given to the next stage, and a header is waited for. -/
structure Handed (cev : EventId) (t u : World) : Prop extends Waiting u where
  calls : u.calls = t.calls ++ [.addEvent cev]
  events : u.events = t.events
  nextEvent : u.nextEvent = t.nextEvent
  localFiles : u.localFiles = t.localFiles
  sock : u.mSock = t.mSock
  host : u.peerHost = t.peerHost

variable {f} {w t u : World}

theorem Handed.handedOver (hu : Handed w.nextEvent t u) (ht : Silent w t)
    (hnext : t.nextEvent = w.nextEvent + 1) (hevent : ∃ path, t.events w.nextEvent = f.event w path
      ∧ (f.file ≠ [] → t.localFiles (cStr path) = some f.file)) : HandedOver w f u where
  calls := by rw [hu.calls, ht.calls]
  nextEvent := hu.nextEvent.trans hnext
  event := by rwa [hu.events, hu.localFiles]
  events c hc := by rw [hu.events, ht.events c hc]
  sock := hu.sock.trans ht.sock
  host := hu.host.trans ht.host

variable (hmem : ∀ k, env.mem k = true)

include hmem

/-- The event is handed over, and the next header is waited for in a vector of the connection's. -/
theorem ends_checkEventReady_server {iov : IoVec} {cev : EventId} (hcev : t.mRecvCb.cev = some cev)
    (hgen : (t.events cev).serverGen = true) (hsys : iov.alloc = .SYS_ALLOC) (hq : t.mRecvQ = []) :
    Ends (checkEventReady env true iov) t (fun _ => Handed cev t) fun _ _ => False := by
  simp only [checkEventReady, if_true, ends_bind, ends_getCb, hcev, eventDone, ends_modify,
    ends_getEvent, ends_ite, hgen, ends_call, ends_setNextRecv, ends_modifyCb, repostIoVec,
    ends_newChar, hmem, ends_postRecv, renew_header hsys, hq, List.nil_append]
  exact { next := rfl, queue := rfl, calls := rfl, events := rfl, nextEvent := rfl,
          localFiles := rfl, sock := rfl, host := rfl }

/-- Behind the message comes the attachment, or the file, or nothing. -/
theorem deliver_message (w : World) : ∃ t, (deliver env).step (w.headed f.hdr) f.msg = some t ∧
    (f.att ≠ [] → AttachmentsLeft f f.mems w t) ∧ (f.att = [] → f.file ≠ [] → FileLeft f w t)
    ∧ (f.att = [] → f.file = [] → Waiting t ∧ HandedOver w f t) := by
  rw [deliver_exists_iff env (w := w.headed f.hdr) (q := []) rfl f.msgLen.symm]
  have hatt : f.hdr.mAttLen.toUInt32 > 0 ↔ ¬ f.att = [] := by
    rw [gt_iff_lt, UInt32.lt_iff_toNat_lt, f.toNat_attLen]
    exact List.length_pos_iff
  have hfile : f.hdr.mFileLen = 0 ↔ f.file = [] := by
    rw [← List.length_eq_zero_iff, ← f.fileLen, ← UInt64.toNat_inj]
    rfl
  have hnone : ((none : Option EventId) == none) = true := rfl
  simp only [recvCallback, ends_bind, ends_getNextRecv, World.headed, recvMessageCb,
    IoVec.fill_base, IoVec.fill_size, IoVec.renew_size, f.msgLen, f.parsed, recvReqMsg, ends_getCb,
    ends_ite, ends_pure, ends_ASSERT, hnone, if_true, ends_newServerEvent, ends_modifyCb,
    ends_setNextRecv, pushAttachMessage, ends_postRecvs, ends_checkEventReady_false,
    ends_recvPrepareFileIov, hmem, hatt, hfile, ne_eq, not_true_eq_false, if_false,
    List.nil_append]
  by_cases h0 : f.att = []
  · have hmems : f.mems = [] := if_pos h0
    by_cases h1 : f.file = []
    · simp only [h0, h1, not_true_eq_false, if_false, false_implies, true_and, forall_const]
      refine (ends_checkEventReady_server hmem rfl (by simp) rfl rfl).mono_ok fun _ t ht => ?_
      refine ⟨ht.toWaiting, ht.handedOver ⟨rfl, fun c hc => ?_, rfl, rfl⟩ rfl
        ⟨[], ?_, fun h => absurd h1 h⟩⟩
      · exact Function.update_of_ne hc _ _
      · simp [ReqFrame.event, hmems]
    · simp only [h0, h1, not_true_eq_false, not_false_eq_true, if_false, if_true, false_implies,
        true_and, forall_const, and_true]
      exact {
        calls := rfl
        events := fun c hc => Function.update_of_ne hc _ _
        sock := rfl
        host := rfl
        nextEvent := rfl
        event := by simp [ReqFrame.event, hmems]
        cev := rfl
        fileLen := rfl
        next := rfl
        queue := by rw [f.blockSize_file]
        remain := rfl }
  · obtain ⟨-, hlt, -, -⟩ := f.mems_spec h0
    have hmems : f.mems = env.attachMems f.hdr.mAttLen.toUInt32.toUInt64 := if_neg h0
    have hcount : intCount f.mems.length = f.mems.length := by
      rw [intCount_eq_ite, Nat.mod_eq_of_lt (by omega), if_pos hlt]
    simp only [h0, not_false_eq_true, if_true, forall_const, false_implies, and_true]
    refine (allocAttachIoVecs_ends env _ _).mono ?_ ?_
    · rintro mems t ⟨rfl, rfl, -⟩
      simp only [← hmems, hcount, List.take_length]
      exact {
        calls := rfl
        events := fun c hc => Function.update_of_ne hc _ _
        sock := rfl
        host := rfl
        nextEvent := rfl
        event := by simp [ReqFrame.event]
        cev := rfl
        fileLen := rfl
        next := rfl
        queue := rfl
        remain := by
          rw [UInt32.toNat_ofNat', Nat.mod_eq_of_lt (by omega)] }
    · rintro e t ⟨-, hg, -⟩
      exact hg fun i _ => hmem _

/-- A block of the attachment leaves the ones behind it, or the file. -/
theorem deliver_attachment {v : VecT} {todo : List VecT} {data : List UInt8}
    (ht : AttachmentsLeft f (v :: todo) w t) (hv : 0 ≤ v.size.toInt) (hfile : f.file ≠ [])
    (hd : data.length = v.size.toInt.toNat) : ∃ u, (deliver env).step t data = some u
      ∧ (todo ≠ [] → AttachmentsLeft f todo w u) ∧ (todo = [] → FileLeft f w u) := by
  have hlen : data.length = (IoVec.ofVec v .USER_ALLOC).size := by
    rw [hd, ofVec_size_of_nonneg hv]
  rw [deliver_exists_iff env (by rw [ht.queue, List.map_cons]) hlen]
  have hremain := ht.remain
  rw [List.length_cons] at hremain
  have hsub : (t.mRecvCb.remainVecs - 1).toNat = todo.length := by
    rw [UInt32.toNat_sub_of_le _ _ (by rw [UInt32.le_iff_toNat_le, hremain]; simp), hremain]
    rfl
  have hlast : t.mRecvCb.remainVecs - 1 = 0 ↔ todo = [] := by
    rw [← List.length_eq_zero_iff, ← hsub, ← UInt32.toNat_inj]
    rfl
  have hfileLen : ¬ f.hdr.mFileLen = 0 := fun h => hfile (by
    rw [← List.length_eq_zero_iff, ← f.fileLen, h]
    rfl)
  simp only [recvCallback, ends_bind, ends_getNextRecv, ht.next, recvAttachCb, ends_modifyCb,
    ends_getCb, ends_ite, recvAttach, ht.fileLen, hfileLen, if_false, ends_recvPrepareFileIov, hmem,
    if_true, ends_checkEventReady_false, ends_pure, hlast]
  have hkeep : Carrying f w t := ht.toCarrying
  by_cases h0 : todo = []
  · simp only [h0, if_true, ne_eq, not_true_eq_false, false_implies, true_and, forall_const]
    exact {
      hkeep with
      fileLen := rfl
      next := rfl
      queue := by rw [f.blockSize_file]; rfl
      remain := rfl }
  · simp only [h0, if_false, ne_eq, not_false_eq_true, forall_const, false_implies, and_true]
    exact { hkeep with fileLen := rfl, next := rfl, queue := rfl, remain := hsub }

omit hmem in
theorem generateRcvFileName_names (env : Env) (cev : EventId) (t : World) :
    Ends (generateRcvFileName env cev) t (fun _ u => { t with names := t.names + 1 } = u)
      fun _ _ => False := by
  simp [generateRcvFileName]

/-- The file is written, and the request is handed over. -/
theorem deliver_file (hdisk : ∀ k, env.disk k = .written) (ht : FileLeft f w t)
    (hfile : f.file ≠ []) :
    ∃ u, (deliver env).step t f.file = some u ∧ Waiting u ∧ HandedOver w f u := by
  rw [deliver_exists_iff env ht.queue rfl]
  have hcount : env.blockCount f.hdr.mFileLen = 1 := by
    refine blockCount_eq_one ?_ ?_ <;> rw [f.fileLen]
    · exact List.length_pos_iff.2 hfile
    · exact f.file_le
  have hcount' : env.blockCount t.mRecvCb.fileLen = 1 := by rw [ht.fileLen, hcount]
  simp only [recvCallback, ends_bind, ends_getNextRecv, ht.next, recvFile, ends_getCb, ht.remain,
    hcount', beq_self_eq_true, recvFileName, ht.cev, if_true]
  refine (generateRcvFileName_names env w.nextEvent _).mono ?_ fun _ _ => False.elim
  rintro path _ rfl
  simp only [ends_bind, ends_get, ends_set, ends_pure, ends_modifyEvent, writeToFile, hdisk,
    ends_modifyCb, ends_ite, IoVec.fill_base, IoVec.fill_size, List.take_length, Bool.not_true,
    Bool.false_eq_true, if_false, if_true]
  rw [if_pos (by decide)]
  refine (ends_checkEventReady_server hmem (by exact ht.cev) ?_ rfl rfl).mono_ok fun _ u hu => ?_
  · simp [ht.event, ReqFrame.event]
  · refine ⟨hu.toWaiting,
      hu.handedOver ⟨ht.calls, fun c hc => ?_, ht.sock, ht.host⟩ ht.nextEvent ?_⟩
    · exact (Function.update_of_ne hc _ _).trans (ht.events c hc)
    · refine ⟨path, ?_, fun _ => ?_⟩
      · refine (Function.update_self _ _ _).trans ?_
        rw [ht.event]
        rfl
      · simp

/-- The blocks of an attachment are received one after the other, and then the file is waited
for. -/
theorem leads_attachments (hfile : f.file ≠ []) (todo : List VecT) : ∀ (att : List UInt8)
    (t : World), todo ≠ [] → (∀ v ∈ todo, 0 ≤ v.size.toInt) → attTotal todo = att.length →
    AttachmentsLeft f todo w t → ∃ u, (deliver env).Leads (Silent w) t
      ((todo.map fun v => v.size.toInt.toNat).splitLengths att) u ∧ FileLeft f w u := by
  induction todo with
  | nil => exact fun _ _ h => absurd rfl h
  | cons v todo ih =>
    intro att t _ hnonneg htotal ht
    rw [attTotal_cons] at htotal
    have hlen : (att.take v.size.toInt.toNat).length = v.size.toInt.toNat := by
      rw [List.length_take]
      omega
    obtain ⟨u, hstep, hmore, hlast⟩ :=
      deliver_attachment hmem ht (hnonneg v (by simp)) hfile hlen
    rw [List.map_cons, List.splitLengths_cons]
    by_cases hnil : todo = []
    · subst hnil
      exact ⟨u, ⟨ht.toSilent, u, hstep, rfl⟩, hlast rfl⟩
    · obtain ⟨u', hleads, hu'⟩ := ih (att.drop v.size.toInt.toNat) u hnil
        (fun x hx => hnonneg x (by simp [hx])) (by rw [List.length_drop]; omega) (hmore hnil)
      exact ⟨u', ⟨ht.toSilent, u, hstep, hleads⟩, hu'⟩

variable (hdisk : ∀ k, env.disk k = .written)

include hdisk

theorem leads_file (ht : FileLeft f w t) (hfile : f.file ≠ []) :
    ∃ u, (deliver env).Leads (Silent w) t f.filePieces u ∧ Waiting u ∧ HandedOver w f u := by
  obtain ⟨u, hstep, hu⟩ := deliver_file hmem hdisk ht hfile
  refine ⟨u, ?_, hu⟩
  rw [ReqFrame.filePieces, if_neg hfile]
  exact ⟨ht.toSilent, u, hstep, rfl⟩

/-- From one header to the next nothing leaves the connection before the last piece, and with it the
request is handed over. -/
theorem leads_frame (f : ReqFrame env) (hw : Waiting w) :
    ∃ t, (deliver env).Leads (Silent w) w f.pieces t ∧ Waiting t ∧ HandedOver w f t := by
  have hbegun : Silent w (w.headed f.hdr) := ⟨rfl, fun _ _ => rfl, rfl, rfl⟩
  obtain ⟨t, hmsg, hatt, hfile, hnone⟩ := deliver_message (f := f) hmem w
  suffices ∃ v, (deliver env).Leads (Silent w) t (f.attPieces ++ f.filePieces) v ∧ Waiting v
      ∧ HandedOver w f v by
    obtain ⟨v, hv, h⟩ := this
    exact ⟨v, ⟨Silent.refl w, _, deliver_header hmem hw f.rpc, hbegun, t, hmsg, hv⟩, h⟩
  by_cases h0 : f.att = []
  · have hpieces : f.attPieces = [] := by simp [ReqFrame.attPieces, ReqFrame.mems, h0]
    rw [hpieces, List.nil_append]
    by_cases h1 : f.file = []
    · rw [ReqFrame.filePieces, if_pos h1]
      exact ⟨t, rfl, hnone h0 h1⟩
    · exact leads_file hmem hdisk (hfile h0 h1) h1
  · obtain ⟨hnonneg, -, hpos, htotal⟩ := f.mems_spec h0
    obtain ⟨u, hleads, hu⟩ := leads_attachments hmem (f.follows h0) f.mems f.att t
      (List.length_pos_iff.1 hpos) hnonneg htotal (hatt h0)
    obtain ⟨v, hv, h⟩ := leads_file hmem hdisk hu (f.follows h0)
    exact ⟨v, hleads.append hv, h⟩

end Stages

/-! ## A stream of requests -/

section Streams

variable {env : Env} {w : World}

/-- The requests `done` have been handed over one after the other, each as an event of its own, and
nothing since. -/
structure Requested (w : World) (done : List (ReqFrame env)) (t : World) : Prop where
  rounds : ∃ u, Machine.Rounds HandedOver w done u ∧ Silent u t
  calls : t.calls = w.calls ++ (List.range' w.nextEvent done.length).map Call.addEvent
  events : ∀ i (hi : i < done.length), ∃ path, t.events (w.nextEvent + i) = done[i].event w path
  before : ∀ c < w.nextEvent, t.events c = w.events c

theorem event_congr {u : World} (f : ReqFrame env) (hsock : u.mSock = w.mSock)
    (hhost : u.peerHost = w.peerHost) (path : Path) : f.event u path = f.event w path := by
  simp only [ReqFrame.event, hsock, hhost]

theorem Requested.of_rounds {done : List (ReqFrame env)} {u t : World}
    (h : Machine.Rounds HandedOver w done u) (hquiet : Silent u t) : Requested w done t := by
  induction h with
  | nil w =>
    exact ⟨⟨w, .nil w, hquiet⟩, by simp [hquiet.calls], fun i hi => absurd hi (by simp),
      fun c hc => hquiet.events c hc.ne⟩
  | @cons w v u f fs hf hfs ih =>
    obtain ⟨⟨u', hrounds, hq⟩, hcalls, hevents, hbefore⟩ := ih hquiet
    refine ⟨⟨u', .cons hf hrounds, hq⟩, ?_, fun i hi => ?_, fun c hc => ?_⟩
    · rw [hcalls, hf.calls, hf.nextEvent, List.length_cons, List.range'_succ, List.map_cons,
        List.append_assoc, List.singleton_append]
    · cases i with
      | zero =>
        obtain ⟨path, hpath, -⟩ := hf.event
        refine ⟨path, ?_⟩
        rw [Nat.add_zero, hbefore _ (by rw [hf.nextEvent]; exact Nat.lt_succ_self _), hpath]
        rfl
      | succ i =>
        obtain ⟨path, hpath⟩ := hevents i (by simpa using hi)
        refine ⟨path, ?_⟩
        rw [hf.nextEvent, event_congr _ hf.sock hf.host, Nat.add_assoc, Nat.add_comm 1] at hpath
        exact hpath
    · have hlt : c < v.nextEvent := hf.nextEvent ▸ Nat.lt_succ_of_lt hc
      rw [hbefore c hlt, hf.events c hc.ne]

/-- A server takes requests, where its buffers are granted and its files written. -/
def requestProtocol (hmem : ∀ k, env.mem k = true) (hdisk : ∀ k, env.disk k = .written) :
    FrameProtocol env (ReqFrame env) where
  pieces := ReqFrame.pieces
  Between := Waiting
  waiting := id
  Within := Silent
  within_refl := Silent.refl
  Taken := HandedOver
  leads _ f hw := leads_frame hmem hdisk f hw

end Streams

end Longda
