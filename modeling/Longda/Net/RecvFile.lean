import Longda.Net.Drain

/-!
# Receiving an attached file

`recvPrepareFileIov` posts the first block of the file, and `recvFile` writes each block that
arrives. It posts no further block, so a file is received exactly where its first block is all of
it (`receives_file_iff`).
-/

namespace Longda

open Lib

/-- The call hands the event over, or ends it. -/
def Call.ends (cev : EventId) : Call → Bool
  | .addEvent e => e == cev
  | .completeEvent e _ => e == cev
  | .done e => e == cev
  | _ => false

/-- How often the event has been delivered. -/
def delivered (cev : EventId) (w : World) : ℕ := w.calls.countP (Call.ends cev)

/-- The file of the frame that is received with the event. -/
def CommEvent.attachFilePath (e : CommEvent) : Path :=
  if e.serverGen then e.request.attachFilePath else e.response.attachFilePath

@[simp] theorem CommEvent.attachFilePath_set (e : CommEvent) (p : Path) :
    (e.setAttachFilePath p).attachFilePath = p := by
  unfold setAttachFilePath attachFilePath
  split_ifs <;> simp_all

@[simp] theorem CommEvent.serverGen_set (e : CommEvent) (p : Path) :
    (e.setAttachFilePath p).serverGen = e.serverGen := by
  unfold setAttachFilePath
  split_ifs <;> rfl

variable (env : Env)

/-- With `m` bytes of the file missing a block of `k` bytes is posted, as long as it can be, and the
event is not delivered. -/
def FilePosted (cev : EventId) (before : ℕ) (w : World) (m k : ℕ) : Prop :=
  w.mNextRecvPart = .ATTACHFILE ∧ (∃ v, w.mRecvQ = [v] ∧ v.size = k)
    ∧ k = min env.gMaxBlockSize m ∧ delivered cev w = before

/-- The local file holds the bytes, the event is delivered once and a header is awaited. -/
def FileReceived (cev : EventId) (before : ℕ) (got : List UInt8) (w : World) : Prop :=
  w.localFiles (cStr (w.events cev).attachFilePath) = some got ∧ delivered cev w = before + 1
    ∧ HeaderPosted w

/-- The bytes of the file are received one block after the other, then the event is delivered. -/
def ReceivesFile (cev : EventId) (w : World) : Prop :=
  (deliver env).Feeds (FilePosted env cev (delivered cev w)) (FileReceived cev (delivered cev w))
    [] w.mRecvCb.fileLen.toNat w

variable {env} {w : World} {iov : IoVec}

/-- A connection that awaits a header, or nothing, takes no byte of a file. -/
theorem not_feeds_of_idle {cev : EventId} {n m : ℕ} {got : List UInt8} (hm : 0 < m)
    (h : w.mNextRecvPart = .HEADER ∨ w.mRecvQ = []) :
    ¬ (deliver env).Feeds (FilePosted env cev n) (FileReceived cev n) got m w := by
  rw [Machine.feeds_iff]
  rintro (⟨rfl, -⟩ | ⟨k, ⟨hn, ⟨v, hq, -⟩, -⟩, -⟩)
  · exact lt_irrefl 0 hm
  · rcases h with h | h
    · exact absurd (h.symm.trans hn) (by decide)
    · simp [h] at hq

theorem checkEventReady_header :
    Ends (checkEventReady env true iov) w (fun _ t => t.mNextRecvPart = .HEADER)
      fun _ _ => True := by
  simp only [checkEventReady, if_true, ends_bind, ends_getCb, ends_setNextRecv, ends_modifyCb,
    repostIoVec, ends_newChar, ends_postRecv]
  refine ends_true.mono_ok fun _ _ _ => ?_
  split_ifs

/-- `recvFile` leaves a connection that awaits a header, or nothing. -/
theorem recvFile_idle (hq : w.mRecvQ = []) (ho : Owned w) :
    Ends (recvFile env iov) w (fun _ t => t.mNextRecvPart = .HEADER ∨ t.mRecvQ = [])
      fun _ _ => True := by
  refine recvFile_ends ho (fun t hrecv _ _ => .inr (hrecv.trans hq)) fun t _ _ => ?_
  exact checkEventReady_header.mono_ok fun _ _ => .inl

/-- A connection that receives a file takes the block it waits for and goes on with the rest. -/
theorem feeds_file_iff {cev : EventId} {n m : ℕ} {got : List UInt8} {v : IoVec}
    (hn : w.mNextRecvPart = .ATTACHFILE) (hq : w.mRecvQ = [v]) (hd : delivered cev w = n) :
    (deliver env).Feeds (FilePosted env cev n) (FileReceived cev n) got m w ↔
      0 < v.size ∧ v.size = min env.gMaxBlockSize m ∧ ∀ data : List UInt8, data.length = v.size →
        Ends (recvFile env (v.fill data)) { w with mRecvQ := [] }
          (fun _ t => (deliver env).Feeds (FilePosted env cev n) (FileReceived cev n) (got ++ data)
            (m - v.size) t) fun _ _ => False := by
  have hstep : ∀ data : List UInt8, data.length = v.size → ∀ P : World → Prop,
      (∃ t, (deliver env).step w data = some t ∧ P t) ↔
        Ends (recvFile env (v.fill data)) { w with mRecvQ := [] } (fun _ => P)
          fun _ _ => False := by
    intro data hd P
    rw [deliver_exists_iff env hq hd]
    simp [recvCallback, hn]
  rw [Machine.feeds_iff]
  constructor
  · rintro (⟨-, hfin⟩ | ⟨k, ⟨-, ⟨u, hu, rfl⟩, hk, -⟩, h0, -, h⟩)
    · exact absurd (hn.symm.trans hfin.2.2.1) (by decide)
    · obtain rfl : v = u := by simpa [hq] using hu
      exact ⟨h0, hk, fun data hd => (hstep data hd _).1 (h data hd)⟩
  · rintro ⟨h0, hk, h⟩
    exact .inr ⟨v.size, ⟨hn, ⟨v, hq, rfl⟩, hk, hd⟩, h0, by omega,
      fun data hd => (hstep data hd _).2 (h data hd)⟩

theorem eventDone_delivers {cev : EventId} (hc : w.mRecvCb.cev = some cev)
    (hripe : Ripe (w.events cev)) :
    Ends (eventDone w.mRecvCb.cev) w
      (fun _ t => t.mRecvQ = w.mRecvQ ∧ t.news = w.news ∧ t.localFiles = w.localFiles
        ∧ (t.events cev).attachFilePath = (w.events cev).attachFilePath
        ∧ delivered cev t = delivered cev w + 1) fun _ _ => False := by
  simp only [hc, eventDone, ends_bind, ends_modify, ends_getEvent, ends_ite, ends_call,
    ends_throw]
  split_ifs with hs hp
  · simp [delivered, Call.ends]
  · exact (hripe (by simpa using hs)).1 hp
  · obtain ⟨-, mId, mStatus, hm⟩ := hripe (by simpa using hs)
    simp only [hm, ends_completeEvent]
    simp [delivered, Call.ends, CommEvent.attachFilePath]

/-- The event is delivered with its file, if the buffer of the next header is granted. -/
theorem ends_checkEventReady_file {cev : EventId} {data : List UInt8} (hq : w.mRecvQ = [])
    (hc : w.mRecvCb.cev = some cev) (hripe : Ripe (w.events cev))
    (hfile : w.localFiles (cStr (w.events cev).attachFilePath) = some data) :
    Ends (checkEventReady env true iov) w (fun _ => FileReceived cev (delivered cev w) data)
      (fun _ _ => False) ↔ env.mem w.news := by
  simp only [checkEventReady, if_true, ends_bind, ends_getCb, ends_setNextRecv, ends_modifyCb,
    repostIoVec, ends_newChar, ends_postRecv]
  refine ends_iff_of (eventDone_delivers hc hripe) ?_ fun _ _ => False.elim
  rintro _ t ⟨htq, htn, htf, hte, htd⟩
  rw [htn]
  split_ifs with hm
  · simp only [hm, iff_true]
    refine ⟨?_, htd, rfl, iov.renew HDR_LEN, by simp [htq, hq], rfl⟩
    simpa [htf, hte] using hfile
  · simp [hm]

/-- A file of one block is written, and the event is delivered with it, if the buffer of the next
header is granted. -/
theorem ends_recvFile_single {cev : EventId} {data : List UInt8} (hq : w.mRecvQ = [])
    (hr : w.mRecvCb.remainVecs = 1) (hb : env.blockCount w.mRecvCb.fileLen = 1)
    (hc : w.mRecvCb.cev = some cev) (hripe : Ripe (w.events cev))
    (hdisk : ∀ k, env.disk k = .written) (hd : data.length = iov.size) :
    Ends (recvFile env (iov.fill data)) w (fun _ => FileReceived cev (delivered cev w) data)
      (fun _ _ => False) ↔ env.mem w.news := by
  have htake : data.take iov.size = data := List.take_of_length_le hd.le
  simp only [recvFile, ends_bind, ends_getCb, hr, hb, beq_self_eq_true, recvFileName, hc, if_true,
    generateRcvFileName, ends_get, ends_set, ends_getEvent, ends_pure, ends_modifyEvent,
    writeToFile, hdisk, ends_modifyCb, ends_ite, IoVec.fill_base, IoVec.fill_size, htake,
    Bool.not_true]
  rw [if_pos (by decide)]
  refine ends_checkEventReady_file hq rfl ?_ ?_
  · simpa using hripe.setAttachFilePath _
  · simp

/-- A file longer than one block is never received. -/
theorem not_receives_of_lt {cev : EventId} (hn : w.mNextRecvPart = .ATTACHFILE)
    (hb : FileBegins env w) (hc : w.mRecvCb.cev = some cev) (hripe : Ripe (w.events cev))
    (hlt : env.gMaxBlockSize < w.mRecvCb.fileLen.toNat) : ¬ ReceivesFile env cev w := by
  obtain ⟨-, -, v, hq, -, hsize⟩ := hb
  rw [Env.blockSize, if_neg (by omega)] at hsize
  rw [ReceivesFile, feeds_file_iff hn hq rfl, hsize]
  rintro ⟨-, -, h⟩
  obtain ⟨_, t, hfeeds, hidle⟩ := (h (List.replicate env.gMaxBlockSize 0) (by simp)).exists_and
    (recvFile_idle rfl ⟨cev, hc, hripe⟩)
  exact not_feeds_of_idle (by omega) hidle hfeeds

/-- A file that fits one block is received if the buffer of the next header is granted. -/
theorem receives_iff_of_le {cev : EventId} (hn : w.mNextRecvPart = .ATTACHFILE)
    (hb : FileBegins env w) (hc : w.mRecvCb.cev = some cev) (hripe : Ripe (w.events cev))
    (hl : 0 < w.mRecvCb.fileLen.toNat) (hdisk : ∀ k, env.disk k = .written)
    (hle : w.mRecvCb.fileLen.toNat ≤ env.gMaxBlockSize) :
    ReceivesFile env cev w ↔ env.mem w.news := by
  obtain ⟨-, hr, v, hq, -, hsize⟩ := hb
  have hv : v.size = w.mRecvCb.fileLen.toNat := by
    rw [hsize, Env.blockSize]
    split_ifs <;> omega
  have hcount : env.blockCount w.mRecvCb.fileLen = 1 := blockCount_eq_one hl hle
  have hsingle : ∀ data : List UInt8, data.length = w.mRecvCb.fileLen.toNat →
      (Ends (recvFile env (v.fill data)) { w with mRecvQ := [] }
        (fun _ => FileReceived cev (delivered cev w) data) (fun _ _ => False)
          ↔ env.mem w.news) := fun data hd =>
    ends_recvFile_single rfl (by exact hr.trans hcount) hcount hc hripe hdisk (hd.trans hv.symm)
  rw [ReceivesFile, feeds_file_iff hn hq rfl, hv]
  simp only [hl, hle, true_and, Nat.sub_self, Machine.feeds_zero_iff, List.nil_append,
    min_eq_right]
  constructor
  · intro h
    exact (hsingle (List.replicate w.mRecvCb.fileLen.toNat 0) (by simp)).1 (h _ (by simp))
  · exact fun hm data hd => (hsingle data hd).2 hm

/-- Where local writes succeed, a file is received exactly where it fits one block and the buffer of
the next header is granted. -/
theorem receives_file_iff (env : Env) (w : World) (cev : EventId)
    (hn : w.mNextRecvPart = .ATTACHFILE) (hb : FileBegins env w) (hc : w.mRecvCb.cev = some cev)
    (hripe : Ripe (w.events cev)) (hl : 0 < w.mRecvCb.fileLen)
    (hdisk : ∀ k, env.disk k = .written) :
    ReceivesFile env cev w ↔
      w.mRecvCb.fileLen.toNat ≤ env.gMaxBlockSize ∧ env.mem w.news := by
  by_cases hle : w.mRecvCb.fileLen.toNat ≤ env.gMaxBlockSize
  · rw [receives_iff_of_le hn hb hc hripe (UInt64.lt_iff_toNat_lt.1 hl) hdisk hle]
    simp [hle]
  · exact iff_of_false (not_receives_of_lt hn hb hc hripe (not_le.1 hle)) fun h => hle h.1

section Samples

theorem sample_begins {fileLen : UInt64}
    (h : ((deliver sampleEnv).run sampleWorld [(sampleHeader 0 fileLen).encode, [0]]).map
      (fun w => (w.mNextRecvPart, w.mRecvQ.isEmpty, w.mRecvCb.fileLen))
        = some (.ATTACHFILE, false, fileLen))
    (hf : (deliver sampleEnv).Meets FileFollows sampleWorld
      [(sampleHeader 0 fileLen).encode, [0]]) :
    ∃ w cev, (deliver sampleEnv).run sampleWorld [(sampleHeader 0 fileLen).encode, [0]] = some w
      ∧ w.mNextRecvPart = .ATTACHFILE ∧ FileBegins sampleEnv w ∧ w.mRecvCb.cev = some cev
      ∧ Ripe (w.events cev) ∧ w.mRecvCb.fileLen = fileLen := by
  obtain ⟨w, hr, hw⟩ := Option.map_eq_some_iff.1 h
  simp only [Prod.mk.injEq] at hw
  obtain ⟨hn, hq, hl⟩ := hw
  obtain ⟨hb, cev, hc, hripe⟩ := (run_consistent connected_sampleWorld hf hr).file hn
    fun he => by simp [he] at hq
  exact ⟨w, cev, hr, hn, hb, hc, hripe, hl⟩

theorem receives_file_ten : ∃ w cev, ReceivesFile sampleEnv cev w
    ∧ (deliver sampleEnv).run sampleWorld [(sampleHeader 0 10).encode, [0]] = some w := by
  obtain ⟨w, cev, hr, hn, hb, hc, hripe, hl⟩ :=
    @sample_begins 10 (by decide +kernel) (by decide +kernel)
  refine ⟨w, cev,
    (receives_file_iff sampleEnv w cev hn hb hc hripe ?_ fun _ => rfl).2 ⟨?_, rfl⟩, hr⟩
  · rw [hl]
    decide
  · rw [hl]
    decide

/-- A file of one block and a byte is never received. -/
theorem not_receives_two_blocks : ∃ w cev,
    (deliver sampleEnv).run sampleWorld [(sampleHeader 0 65).encode, [0]] = some w
      ∧ w.mNextRecvPart = .ATTACHFILE ∧ w.mRecvCb.cev = some cev
      ∧ ¬ ReceivesFile sampleEnv cev w := by
  obtain ⟨w, cev, hr, hn, hb, hc, hripe, hl⟩ :=
    @sample_begins 65 (by decide +kernel) (by decide +kernel)
  refine ⟨w, cev, hr, hn, hc, not_receives_of_lt hn hb hc hripe ?_⟩
  rw [hl]
  decide

end Samples

end Longda
