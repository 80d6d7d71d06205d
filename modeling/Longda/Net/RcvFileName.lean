import Longda.Lib.Buffer
import Longda.Lib.Machine
import Longda.Net.ConnCb

/-!
# The names of received files

`recvFile` makes a name for the file of an event when its first block arrives, from a directory that
`CRollSelectDir` hands out in turn, the host of the peer, the clock and the request id, and opens it
to be written anew; later blocks are appended under the name that was kept in `filePath`. Each
connection has its thread, and the threads take the directory, read the clock and open the file in
any order.

The four parts can be read off a name but for where the directory ends and the host begins
(`RcvName.text_eq_iff`), so two events get one name exactly if the parts are the same: connections
of one host that use one request id, which get the same directory and the same reading of the clock.
-/

namespace Longda

open Lib

/-! ## Numbers in names -/

/-- The bytes of the digits of a number. -/
def digits (n : ℕ) : Path := (Nat.toDigits 10 n).map fun c => UInt8.ofNat c.toNat

theorem valToStr_ofNat (n : ℕ) : valToStr (Int.ofNat n) = digits n := by
  unfold valToStr digits
  rw [Int.toString_eq_repr]
  simp [Int.repr]

theorem valToStr_negSucc (n : ℕ) : valToStr (Int.negSucc n) = 45 :: digits (n + 1) := by
  unfold valToStr digits
  rw [Int.toString_eq_repr]
  simp [Int.repr]

theorem toNat_of_mem_toDigits {n : ℕ} {c : Char} (h : c ∈ Nat.toDigits 10 n) :
    48 ≤ c.toNat ∧ c.toNat ≤ 57 := by
  have hd := Nat.isDigit_of_mem_toDigits (by decide) (by decide) h
  simp only [Char.isDigit, Bool.and_eq_true, decide_eq_true_eq] at hd
  exact hd

theorem mem_digits {n : ℕ} {b : UInt8} (h : b ∈ digits n) : 48 ≤ b.toNat ∧ b.toNat ≤ 57 := by
  unfold digits at h
  obtain ⟨c, hc, rfl⟩ := List.mem_map.1 h
  have hc := toNat_of_mem_toDigits hc
  rwa [UInt8.toNat_ofNat_of_lt' (by change _ < 2 ^ 8; omega)]

theorem digits_injective : Function.Injective digits := by
  have hchars : ∀ n, (digits n).map (fun b => Char.ofNat b.toNat) = Nat.toDigits 10 n := by
    intro n
    unfold digits
    rw [List.map_map]
    refine (List.map_congr_left fun c hc => ?_).trans (List.map_id _)
    obtain ⟨-, h57⟩ := toNat_of_mem_toDigits hc
    simp only [Function.comp_apply, id_eq]
    rw [UInt8.toNat_ofNat_of_lt' (by change _ < 2 ^ 8; omega), Char.ofNat_toNat]
  intro n m h
  have hd : Nat.toDigits 10 n = Nat.toDigits 10 m := by rw [← hchars, ← hchars, h]
  rw [← @Nat.ofDigitChars_ten_toDigits n, hd, Nat.ofDigitChars_ten_toDigits]

theorem mem_valToStr {n : ℤ} {b : UInt8} (h : b ∈ valToStr n) :
    b = 45 ∨ 48 ≤ b.toNat ∧ b.toNat ≤ 57 := by
  rcases n with n | n
  · rw [valToStr_ofNat] at h
    exact .inr (mem_digits h)
  · rw [valToStr_negSucc, List.mem_cons] at h
    exact h.imp_right mem_digits

theorem valToStr_injective : Function.Injective valToStr := by
  have hne : ∀ n m, digits n ≠ 45 :: digits m := by
    intro n m h
    have hmem := mem_digits (n := n) (b := 45) (by rw [h]; simp)
    exact absurd hmem (by decide)
  intro n m h
  rcases n with n | n <;> rcases m with m | m <;>
    simp only [valToStr_ofNat, valToStr_negSucc] at h
  · rw [digits_injective h]
  · exact absurd h (hne n (m + 1))
  · exact absurd h.symm (hne m (n + 1))
  · have hnm := digits_injective (List.cons.inj h).2
    rw [Nat.succ.inj hnm]

/-! ## Names -/

/-- What `generateRcvFileName` makes a name from. -/
structure RcvName where
  fileDir : Path
  peerHost : Path
  timestamp : Int64
  reqId : UInt32
  deriving DecidableEq

namespace RcvName

/-- The directory and the host, as they stand in the name. -/
def place (n : RcvName) : Path := n.fileDir ++ [47] ++ cStr n.peerHost

def text (n : RcvName) : Path :=
  n.place ++ [95] ++ valToStr n.timestamp.toInt ++ [95] ++ valToStr n.reqId.toNat

/-- The names are of one file. -/
def Same (n m : RcvName) : Prop :=
  n.place = m.place ∧ n.timestamp = m.timestamp ∧ n.reqId = m.reqId

instance (n m : RcvName) : Decidable (n.Same m) := inferInstanceAs (Decidable (_ ∧ _))

end RcvName

/-- What the receive path of a connection calls with what it gets makes this name. -/
theorem ends_generateRcvFileName {env : Env} {cev : EventId} {w : World} :
    Ends (generateRcvFileName env cev) w (fun fileName _ => fileName = RcvName.text
      { fileDir := env.select w.names, peerHost := (w.events cev).targetHost
        timestamp := env.usec w.names, reqId := (w.events cev).requestId }) fun _ _ => False := by
  simp only [generateRcvFileName, ends_bind, ends_get, ends_set, ends_getEvent, ends_pure]
  rfl

/-- What follows the last separator can be read off. -/
theorem append_cons_inj {α : Type*} {l l' k k' : List α} {a : α} (hk : a ∉ k) (hk' : a ∉ k') :
    l ++ a :: k = l' ++ a :: k' ↔ l = l' ∧ k = k' := by
  constructor
  · intro h
    rcases List.append_eq_append_iff.1 h with ⟨c, rfl, hc⟩ | ⟨c, rfl, hc⟩ <;>
      rcases c with _ | ⟨b, c⟩
    · simp at hc
      exact ⟨by simp, hc⟩
    · simp at hc
      exact absurd (by simp [hc.2]) hk
    · simp at hc
      exact ⟨by simp, hc.symm⟩
    · simp at hc
      exact absurd (by simp [hc.2]) hk'
  · rintro ⟨rfl, rfl⟩
    rfl

theorem notMem_valToStr {n : ℤ} {b : UInt8} (h45 : b ≠ 45) (h : ¬ (48 ≤ b.toNat ∧ b.toNat ≤ 57)) :
    b ∉ valToStr n := fun hb => (mem_valToStr hb).elim h45 h

theorem cStr_eq_self {f : Path} (h : (0 : UInt8) ∉ f) : cStr f = f :=
  cString_eq_self fun _ hb h0 => h (h0 ▸ hb)

/-- The kept name of a file with more blocks to come is the name. -/
theorem cStr_strncpyPath {f : Path} (hc : cStr f = f) (hl : f.length < FILENAME_LENGTH_MAX) :
    cStr (strncpyPath f) = f := by
  unfold strncpyPath
  have hle : f.length ≤ FILENAME_LENGTH_MAX - 1 := Nat.le_pred_of_lt hl
  rw [hc, List.take_of_length_le hle, hc]

namespace RcvName
variable {n m : RcvName}

/-- Two names are one exactly if their parts are. -/
theorem text_eq_iff : n.text = m.text ↔ n.Same m := by
  have hsep : ∀ k : ℤ, (95 : UInt8) ∉ valToStr k := fun k =>
    notMem_valToStr (by decide) (by decide)
  unfold text Same
  simp only [List.append_assoc, List.singleton_append]
  rw [← List.append_assoc, ← List.append_assoc, append_cons_inj (hsep _) (hsep _),
    append_cons_inj (hsep _) (hsep _)]
  rw [valToStr_injective.eq_iff, valToStr_injective.eq_iff, Int64.toInt_inj, Nat.cast_inj,
    UInt32.toNat_inj, and_assoc]

theorem notMem_text (h : (0 : UInt8) ∉ n.fileDir) : (0 : UInt8) ∉ n.text := by
  have hnum : ∀ k : ℤ, (0 : UInt8) ∉ valToStr k := fun k => notMem_valToStr (by decide) (by decide)
  have hhost : (0 : UInt8) ∉ cStr n.peerHost := fun hmem =>
    ne_zero_of_mem_cString hmem rfl
  simp [text, place, h, hnum, hhost]

end RcvName

/-! ## Directories -/

structure CRollSelectDir where
  mSubdirs : List Path
  mPos : UInt32

namespace CRollSelectDir

def setBaseDir (baseDir : Path) (dirList : List Path) : CRollSelectDir where
  mSubdirs := if dirList.length = 0 then [baseDir] else dirList
  mPos := 0

/-- `none` where the base directory has not been set, as the remainder is then by zero. -/
def select (d : CRollSelectDir) : Option (Path × CRollSelectDir) :=
  d.mSubdirs[d.mPos.toNat % d.mSubdirs.length]?.map fun ret =>
    (ret, { d with mPos := d.mPos + 1 })

end CRollSelectDir

/-! ## Files that are received -/

/-- Where the thread of a connection is: between two blocks, after `select`, or with the name made
and the file not opened. -/
inductive RcvPlace
  | atBlock
  | selected (fileDir : Path)
  | named (fileName : Path)
  deriving DecidableEq

/-- A file of a number of blocks that is received with an event. -/
structure Receiving where
  cev : EventId
  peerHost : Path
  reqId : UInt32
  blockCount : UInt32
  remainVecs : UInt32
  filePath : Path
  place : RcvPlace

/-- What is left to receive after a block: nothing after the last one, or after a failure. -/
def Receiving.next (r : Receiving) (filePath : Path) (written : Bool) : Option Receiving :=
  if written ∧ r.remainVecs - 1 ≠ 0 then
    some { r with filePath, remainVecs := r.remainVecs - 1, place := .atBlock }
  else none

/-- An open of a file for an event, to write it anew or to append to it. -/
structure RcvOpen where
  cev : EventId
  path : Path
  append : Bool

/-- The connections, the names that have been made and the files that have been opened. -/
structure RcvFiles (κ : Type*) where
  selectDir : CRollSelectDir
  conns : κ → Option Receiving
  names : List (EventId × RcvName)
  opens : List RcvOpen

namespace RcvFiles

inductive Label (κ : Type*)
  | setBaseDir (baseDir : Path) (dirList : List Path)
  /-- `recvPrepareFileIov`: the message of an event has been read, and its file is to follow. -/
  | prepare (c : κ) (cev : EventId) (peerHost : Path) (reqId blockCount : UInt32)
  | select (c : κ)
  | usec (c : κ) (timestamp : Int64)
  /-- The first block, and whether all of it is written. -/
  | write (c : κ) (written : Bool)
  /-- A later block. -/
  | append (c : κ) (written : Bool)
  /-- The connection is given up. -/
  | drop (c : κ)

variable {κ : Type*}

/-- No file is received, and no base directory has been set. -/
def start : RcvFiles κ where
  selectDir := { mSubdirs := [], mPos := 0 }
  conns := fun _ => none
  names := []
  opens := []

/-- The name that is made when the thread reads the clock, and the event it is for. -/
def nextName (s : RcvFiles κ) (c : κ) (timestamp : Int64) : Option (EventId × RcvName) :=
  (s.conns c).bind fun r =>
    match r.place with
    | .selected fileDir =>
      some (r.cev, { fileDir, peerHost := r.peerHost, timestamp, reqId := r.reqId })
    | _ => none

section
variable [DecidableEq κ]

/-- `recvFile`, in its steps. -/
def machine : Machine (RcvFiles κ) (Label κ) where
  step := fun s l =>
    match l with
    | .setBaseDir baseDir dirList => some { s with selectDir := .setBaseDir baseDir dirList }
    | .prepare c cev peerHost reqId blockCount =>
      if (s.conns c).isNone then
        some { s with conns := Function.update s.conns c (some
          { cev, peerHost, reqId, blockCount, remainVecs := blockCount, filePath := []
            place := .atBlock }) }
      else none
    | .select c => (s.conns c).bind fun r =>
      if r.place = .atBlock ∧ r.remainVecs = r.blockCount then
        s.selectDir.select.map fun (fileDir, selectDir) =>
          { s with
            selectDir
            conns := Function.update s.conns c (some { r with place := .selected fileDir }) }
      else none
    | .usec c timestamp => (s.conns c).bind fun r => (s.nextName c timestamp).map fun n =>
      { s with
        names := s.names ++ [n]
        conns := Function.update s.conns c (some { r with place := .named n.2.text }) }
    | .write c written => (s.conns c).bind fun r =>
      match r.place with
      | .named fileName => some
        { s with
          opens := s.opens ++ [{ cev := r.cev, path := cStr fileName, append := false }]
          conns := Function.update s.conns c (Receiving.next r (strncpyPath fileName) written) }
      | _ => none
    | .append c written => (s.conns c).bind fun r =>
      if r.place = .atBlock ∧ r.remainVecs ≠ r.blockCount then some
        { s with
          opens := s.opens ++ [{ cev := r.cev, path := cStr r.filePath, append := true }]
          conns := Function.update s.conns c (Receiving.next r r.filePath written) }
      else none
    | .drop c => some { s with conns := Function.update s.conns c none }

end

/-- The name that is made is not the same as one made for another event. -/
def Unlike (s : RcvFiles κ) : Label κ → Prop
  | .usec c timestamp => ∀ n ∈ s.nextName c timestamp, ∀ m ∈ s.names, m.1 ≠ n.1 → ¬ m.2.Same n.2
  | _ => True

/-- The name that is made is a C string, and fits `filePath` if more than one block is to come. -/
def Fits (s : RcvFiles κ) : Label κ → Prop
  | .usec c timestamp => ∀ n ∈ s.nextName c timestamp, (0 : UInt8) ∉ n.2.fileDir ∧
      ∀ r ∈ s.conns c, r.blockCount ≠ 1 → n.2.text.length < FILENAME_LENGTH_MAX
  | _ => True

instance (s : RcvFiles κ) : (l : Label κ) → Decidable (s.Unlike l)
  | .usec c timestamp => inferInstanceAs (Decidable
      (∀ n ∈ s.nextName c timestamp, ∀ m ∈ s.names, m.1 ≠ n.1 → ¬ m.2.Same n.2))
  | .setBaseDir .. | .prepare .. | .select _ | .write .. | .append .. | .drop _ =>
    inferInstanceAs (Decidable True)

instance (s : RcvFiles κ) : (l : Label κ) → Decidable (s.Fits l)
  | .usec c timestamp => inferInstanceAs (Decidable
      (∀ n ∈ s.nextName c timestamp, (0 : UInt8) ∉ n.2.fileDir ∧
        ∀ r ∈ s.conns c, r.blockCount ≠ 1 → n.2.text.length < FILENAME_LENGTH_MAX))
  | .setBaseDir .. | .prepare .. | .select _ | .write .. | .append .. | .drop _ =>
    inferInstanceAs (Decidable True)

def NamesApart (s : RcvFiles κ) : Prop :=
  ∀ n ∈ s.names, ∀ m ∈ s.names, n.1 ≠ m.1 → n.2.text ≠ m.2.text

/-- No file is opened for two events. -/
def OpensApart (s : RcvFiles κ) : Prop :=
  ∀ o ∈ s.opens, ∀ p ∈ s.opens, o.cev ≠ p.cev → o.path ≠ p.path

variable {s t : RcvFiles κ} {l : Label κ}

theorem NamesApart.append_iff {n : EventId × RcvName} (hs : s.NamesApart)
    (hn : t.names = s.names ++ [n]) :
    t.NamesApart ↔ ∀ m ∈ s.names, m.1 ≠ n.1 → ¬ m.2.Same n.2 := by
  unfold NamesApart
  rw [hn]
  constructor
  · intro h m hm hne hsame
    exact h m (by simp [hm]) n (by simp) hne (RcvName.text_eq_iff.2 hsame)
  · intro h m hm k hk hne
    simp only [List.mem_append, List.mem_singleton] at hm hk
    rcases hm with hm | rfl <;> rcases hk with hk | rfl
    · exact hs m hm k hk hne
    · exact fun htext => h m hm hne (RcvName.text_eq_iff.1 htext)
    · exact fun htext => h k hk hne.symm (RcvName.text_eq_iff.1 htext.symm)
    · exact absurd rfl hne

/-- Where a thread is agrees with the names made: what it has of a name is one that was made for its
event. -/
def Agrees (names : List (EventId × RcvName)) (r : Receiving) : Prop :=
  match r.place with
  | .atBlock =>
    r.remainVecs = r.blockCount ∨ ∃ n, (r.cev, n) ∈ names ∧ cStr r.filePath = n.text
  | .selected _ => r.remainVecs = r.blockCount
  | .named fileName => r.remainVecs = r.blockCount ∧ cStr fileName = fileName ∧
      (r.blockCount ≠ 1 → fileName.length < FILENAME_LENGTH_MAX) ∧
      ∃ n, (r.cev, n) ∈ names ∧ fileName = n.text

/-- Names are apart, and each file that is open is under a name of its event. -/
structure Kept (s : RcvFiles κ) : Prop where
  apart : s.NamesApart
  opens : ∀ o ∈ s.opens, ∃ n, (o.cev, n) ∈ s.names ∧ o.path = n.text
  conns : ∀ c r, s.conns c = some r → Agrees s.names r

theorem Kept.opensApart (hs : s.Kept) : s.OpensApart := by
  intro o ho p hp hne
  obtain ⟨n, hn, hon⟩ := hs.opens o ho
  obtain ⟨m, hm, hpm⟩ := hs.opens p hp
  rw [hon, hpm]
  exact hs.apart _ hn _ hm hne

theorem Agrees.mono {names names' : List (EventId × RcvName)} {r : Receiving}
    (h : Agrees names r) (hsub : names ⊆ names') : Agrees names' r := by
  rcases r with ⟨cev, host, reqId, blockCount, remainVecs, filePath, _ | d | f⟩
  · exact h.imp_right fun ⟨n, hn, hf⟩ => ⟨n, hsub hn, hf⟩
  · exact h
  · obtain ⟨hr, hc, hfit, n, hn, hf⟩ := h
    exact ⟨hr, hc, hfit, n, hsub hn, hf⟩

/-- The name that a thread makes is a C string and long enough for what is to come. -/
theorem Kept.named {c : κ} {timestamp : Int64} {r : Receiving} {n : EventId × RcvName}
    (hs : s.Kept) (hr : s.conns c = some r) (hn : s.nextName c timestamp = some n)
    (hfits : s.Fits (.usec c timestamp)) :
    Agrees (s.names ++ [n]) { r with place := .named n.2.text } := by
  obtain ⟨hzero, hfit⟩ := hfits n hn
  have hagrees := hs.conns c r hr
  unfold nextName at hn
  rw [hr, Option.bind_some] at hn
  rcases hp : r.place with _ | d | f <;> rw [hp] at hn <;> try cases hn
  rw [Agrees, hp] at hagrees
  exact ⟨hagrees, cStr_eq_self (RcvName.notMem_text hzero), hfit r hr, _, by simp, rfl⟩

variable [DecidableEq κ]

/-- A step makes the name that the thread whose clock is read makes, or none. -/
theorem names_step (ht : machine.step s l = some t) :
    (∃ c ts n, l = .usec c ts ∧ s.nextName c ts = some n ∧ t.names = s.names ++ [n]) ∨
      (∀ c ts, l ≠ .usec c ts) ∧ t.names = s.names := by
  unfold machine at ht
  rcases l with ⟨b, d⟩ | ⟨c, cev, host, reqId, n⟩ | c | ⟨c, ts⟩ | ⟨c, ok⟩ | ⟨c, ok⟩ | c
  · obtain rfl := Option.some.inj ht
    exact .inr ⟨by simp, rfl⟩
  · obtain ⟨-, ht⟩ := Option.ite_none_right_eq_some.1 ht
    obtain rfl := Option.some.inj ht
    exact .inr ⟨by simp, rfl⟩
  · obtain ⟨r, -, ht⟩ := Option.bind_eq_some_iff.1 ht
    obtain ⟨-, ht⟩ := Option.ite_none_right_eq_some.1 ht
    obtain ⟨d, -, rfl⟩ := Option.map_eq_some_iff.1 ht
    exact .inr ⟨by simp, rfl⟩
  · obtain ⟨r, -, ht⟩ := Option.bind_eq_some_iff.1 ht
    obtain ⟨n, hn, rfl⟩ := Option.map_eq_some_iff.1 ht
    exact .inl ⟨c, ts, n, rfl, hn, rfl⟩
  · obtain ⟨r, -, ht⟩ := Option.bind_eq_some_iff.1 ht
    rcases hp : r.place with _ | d | f <;> rw [hp] at ht <;> try cases ht
    exact .inr ⟨by simp, rfl⟩
  · obtain ⟨r, -, ht⟩ := Option.bind_eq_some_iff.1 ht
    obtain ⟨-, ht⟩ := Option.ite_none_right_eq_some.1 ht
    obtain rfl := Option.some.inj ht
    exact .inr ⟨by simp, rfl⟩
  · obtain rfl := Option.some.inj ht
    exact .inr ⟨by simp, rfl⟩

theorem namesApart_step (hs : s.NamesApart) (ht : machine.step s l = some t) :
    t.NamesApart ↔ s.Unlike l := by
  rcases names_step ht with ⟨c, ts, n, rfl, hn, hnames⟩ | ⟨hl, hnames⟩
  · rw [hs.append_iff hnames]
    simp [Unlike, hn]
  · have ht : t.NamesApart := by
      unfold NamesApart
      rw [hnames]
      exact hs
    refine iff_of_true ht ?_
    unfold Unlike
    split
    · exact absurd rfl (hl _ _)
    · trivial

/-- Only the connection of the step moves. -/
theorem agrees_update {names names' : List (EventId × RcvName)} {conns : κ → Option Receiving}
    {c : κ} {x : Option Receiving} (h : ∀ c r, conns c = some r → Agrees names r)
    (hsub : names ⊆ names') (hx : ∀ r, x = some r → Agrees names' r) :
    ∀ d r, Function.update conns c x d = some r → Agrees names' r := by
  intro d r hd
  rcases eq_or_ne d c with rfl | hne
  · rw [Function.update_self] at hd
    exact hx r hd
  · rw [Function.update_of_ne hne] at hd
    exact (h d r hd).mono hsub

theorem agrees_next {names : List (EventId × RcvName)} {r q : Receiving} {f : Path} {ok : Bool}
    (hq : r.next f ok = some q)
    (hf : r.remainVecs - 1 ≠ 0 → ∃ n, (r.cev, n) ∈ names ∧ cStr f = n.text) : Agrees names q := by
  obtain ⟨⟨-, hne⟩, hq⟩ := Option.ite_none_right_eq_some.1 hq
  obtain rfl := Option.some.inj hq
  exact .inr (hf hne)

/-- A step that makes no name and opens no file moves one connection. -/
theorem Kept.moved {c : κ} {x : Option Receiving} (hs : s.Kept) (hnames : t.names = s.names)
    (hopens : t.opens = s.opens) (hconns : t.conns = Function.update s.conns c x)
    (hx : ∀ r, x = some r → Agrees s.names r) : t.Kept := by
  refine ⟨?_, ?_, ?_⟩
  · unfold NamesApart
    rw [hnames]
    exact hs.apart
  · rw [hopens, hnames]
    exact hs.opens
  · rw [hconns, hnames]
    exact agrees_update hs.conns (List.Subset.refl _) hx

/-- A step that makes no name opens a file under a name of the event, and keeps the name if there is
more to come. -/
theorem Kept.opened {c : κ} {r : Receiving} {o : RcvOpen} {n : RcvName} {f : Path} {ok : Bool}
    (hs : s.Kept) (hnames : t.names = s.names) (hopens : t.opens = s.opens ++ [o])
    (hconns : t.conns = Function.update s.conns c (r.next f ok)) (hcev : o.cev = r.cev)
    (hn : (r.cev, n) ∈ s.names) (hpath : o.path = n.text)
    (hf : r.remainVecs - 1 ≠ 0 → cStr f = n.text) : t.Kept := by
  have hmoved := hs.moved (t := { t with opens := s.opens }) hnames rfl hconns fun q hq =>
    agrees_next hq fun hne => ⟨n, hn, hf hne⟩
  refine ⟨hmoved.apart, fun p hp => ?_, hmoved.conns⟩
  rw [hopens, List.mem_append, List.mem_singleton] at hp
  rcases hp with hp | rfl
  · exact hmoved.opens p hp
  · exact ⟨n, by rwa [hcev, hnames], hpath⟩

theorem kept_step (hs : s.Kept) (hc : s.Unlike l ∧ s.Fits l) (ht : machine.step s l = some t) :
    t.Kept := by
  have hapart := (namesApart_step hs.apart ht).2 hc.1
  unfold machine at ht
  rcases l with ⟨b, d⟩ | ⟨c, cev, host, reqId, n⟩ | c | ⟨c, ts⟩ | ⟨c, ok⟩ | ⟨c, ok⟩ | c
  · obtain rfl := Option.some.inj ht
    exact ⟨hapart, hs.opens, hs.conns⟩
  · obtain ⟨-, ht⟩ := Option.ite_none_right_eq_some.1 ht
    obtain rfl := Option.some.inj ht
    refine hs.moved rfl rfl rfl fun r hr => ?_
    obtain rfl := Option.some.inj hr
    exact .inl rfl
  · obtain ⟨r, hr, ht⟩ := Option.bind_eq_some_iff.1 ht
    obtain ⟨⟨-, hfirst⟩, ht⟩ := Option.ite_none_right_eq_some.1 ht
    obtain ⟨d, -, rfl⟩ := Option.map_eq_some_iff.1 ht
    refine hs.moved rfl rfl rfl fun q hq => ?_
    obtain rfl := Option.some.inj hq
    exact hfirst
  · obtain ⟨r, hr, ht⟩ := Option.bind_eq_some_iff.1 ht
    obtain ⟨n, hn, rfl⟩ := Option.map_eq_some_iff.1 ht
    have hsub : s.names ⊆ s.names ++ [n] := by simp
    refine ⟨hapart, fun o ho => ?_, agrees_update hs.conns hsub fun q hq => ?_⟩
    · obtain ⟨m, hm, hom⟩ := hs.opens o ho
      exact ⟨m, hsub hm, hom⟩
    · obtain rfl := Option.some.inj hq
      exact hs.named hr hn hc.2
  · obtain ⟨r, hr, ht⟩ := Option.bind_eq_some_iff.1 ht
    have hagrees := hs.conns c r hr
    rcases hp : r.place with _ | d | f <;> rw [hp] at ht <;> try cases ht
    rw [Agrees, hp] at hagrees
    obtain ⟨hfirst, hstr, hfit, n, hn, hfn⟩ := hagrees
    refine hs.opened rfl rfl rfl rfl hn (hstr.trans hfn) fun hne => ?_
    rw [cStr_strncpyPath hstr (hfit ?_), hfn]
    rintro h1
    exact hne (by rw [hfirst, h1]; rfl)
  · obtain ⟨r, hr, ht⟩ := Option.bind_eq_some_iff.1 ht
    obtain ⟨⟨hp, hlater⟩, ht⟩ := Option.ite_none_right_eq_some.1 ht
    obtain rfl := Option.some.inj ht
    have hagrees := hs.conns c r hr
    rw [Agrees, hp] at hagrees
    obtain ⟨n, hn, hfn⟩ := hagrees.resolve_left hlater
    exact hs.opened rfl rfl rfl rfl hn hfn fun _ => hfn
  · obtain rfl := Option.some.inj ht
    exact hs.moved rfl rfl rfl fun r hr => by cases hr

/-- All along a run the names of different events are apart exactly if no name is made that is the
same as one of another event; and if the names are C strings that fit `filePath` where they are kept
there, no file is opened for two events either. -/
theorem apart_iff_unlike {ls : List (Label κ)} (hrun : machine.run start ls = some t) :
    (machine.Throughout NamesApart start ls ↔ machine.Meets Unlike start ls) ∧
      (machine.Meets (fun s l => s.Unlike l ∧ s.Fits l) start ls →
        machine.Throughout (fun s => s.NamesApart ∧ s.OpensApart) start ls) := by
  have hstart : (start : RcvFiles κ).NamesApart := by simp [NamesApart, start]
  constructor
  · exact machine.throughout_iff_meets (B := fun _ => True) (I := fun _ => True)
      (fun _ _ _ _ _ => trivial)
      (fun _ _ _ _ _ hs ht => ⟨trivial, namesApart_step hs ht⟩) ls trivial trivial hstart hrun
  · refine machine.throughout_of_meets (I := Kept) (fun s hs => ⟨hs.apart, hs.opensApart⟩)
      (fun s l t hs hc ht => kept_step hs hc ht) ls ⟨hstart, ?_, ?_⟩
    · simp [start]
    · simp [start]

/-- Two connections of one host receive files under one request id, and read the clock one after the
other. -/
theorem apart_of_readings :
    let ls : List (Label ℕ) := [.setBaseDir [100] [], .prepare 0 0 [104] 1 2,
      .prepare 1 1 [104] 1 1, .select 0, .select 1, .usec 1 5, .usec 0 6, .write 0 true,
      .write 1 true, .append 0 true]
    machine.Throughout (fun s => s.NamesApart ∧ s.OpensApart) start ls := by
  intro ls
  have hrun : machine.run start ls = some _ := rfl
  exact (apart_iff_unlike hrun).2 (by decide)

/-- They read the clock at once, and one name is made for both events: each opens it to write it
anew. -/
theorem not_apart_at_once : ∃ t : RcvFiles ℕ,
    machine.run start [.setBaseDir [100] [], .prepare 0 0 [104] 1 1, .prepare 1 1 [104] 1 1,
      .select 0, .select 1, .usec 0 5, .usec 1 5, .write 0 true, .write 1 true] = some t ∧
      ¬ t.NamesApart ∧ ¬ t.OpensApart := by
  refine ⟨_, rfl, fun h => ?_, fun h => ?_⟩
  · exact h (0, { fileDir := [100], peerHost := [104], timestamp := 5, reqId := 1 }) (by decide)
      (1, { fileDir := [100], peerHost := [104], timestamp := 5, reqId := 1 }) (by decide)
      (by decide) rfl
  · exact h _ (List.mem_cons_self) _ (List.mem_cons_of_mem _ List.mem_cons_self) (by decide) rfl

end RcvFiles

end Longda
