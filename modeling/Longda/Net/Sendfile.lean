import Longda.Lib.MachineInt
import Longda.Net.SockUtil
import Mathlib.Data.Nat.Find

/-!
# Sending a file when the kernel does not send it all

`SockUtil` takes the kernel to send what it is asked for. Here each call of the kernel's `sendfile`
gives any result it may give. The loop puts the result into an unsigned number and tests the address
of the counter in its place, so that an error adds to what remains and the end of the file is asked
for over and over. It ends right exactly if all is sent before a call fails (`sendsRight_iff`).
-/

namespace Longda

open Lib

/-- What the calls on the kernel give: the errno of those that fail, whether the socket is
non-blocking, and the results of `sendfile` one after another. The offset goes to the kernel. -/
structure SendfileCalls where
  openErrno : Option Int32 := none
  getFlags : Except Int32 Bool := .ok false
  setFlags : Option Int32 := none
  restoreFlags : Option Int32 := none
  sendfile : ℕ → Int64

/-- What the caller gets, and how many calls of `sendfile` were made. -/
structure SendfileReport where
  result : Int32
  sendCount : Int64
  calls : ℕ

namespace Sock

def EACCES : Int32 := 13

/-- `errno != 0 ? errno : EACCES`. -/
def errnoOr (errno : Int32) : Int32 := if errno ≠ 0 then errno else EACCES

namespace Kernel

/-- What the kernel is asked for. -/
def request (remain : UInt64) : UInt64 :=
  if remain > ONE_GIGA.toUInt64 then ONE_GIGA.toUInt64 else remain

/-- The loop, with so many turns to spare, before call number `calls`: the calls made and what
remains at its end. The error check in it compares an address with zero and never leaves it. -/
def loop (sendfile : ℕ → Int64) : ℕ → ℕ → UInt64 → Option (ℕ × UInt64)
  | 0, calls, remain => if remain = 0 then some (calls, remain) else none
  | fuel + 1, calls, remain =>
    if remain = 0 then some (calls, remain)
    else loop sendfile fuel (calls + 1) (remain - (sendfile calls).toUInt64)

/-- What comes before the loop: an error, or whether the socket is non-blocking. -/
def start (c : SendfileCalls) : Except Int32 Bool :=
  match c.openErrno with
  | some errno => .error (errnoOr errno)
  | none =>
    match c.getFlags with
    | .error errno => .error (errnoOr errno)
    | .ok false => .ok false
    | .ok true =>
      match c.setFlags with
      | some errno => .error (errnoOr errno)
      | none => .ok true

def sendfile (c : SendfileCalls) (count : UInt64) (fuel : ℕ) : Option SendfileReport :=
  match start c with
  | .error result => some ⟨result, 0, 0⟩
  | .ok nonblock =>
    (loop c.sendfile fuel 0 count).map fun (calls, remain) =>
      let sendCount := (count - remain).toInt64
      match nonblock, c.restoreFlags with
      | true, some errno => ⟨errnoOr errno, sendCount, calls⟩
      | _, _ => ⟨0, sendCount, calls⟩

/-- What remains before call `n`. -/
def remains (sendfile : ℕ → Int64) (count : UInt64) : ℕ → UInt64
  | 0 => count
  | n + 1 => remains sendfile count n - (sendfile n).toUInt64

/-- How much the first calls have sent. -/
def sent (sendfile : ℕ → Int64) : ℕ → ℕ
  | 0 => 0
  | n + 1 => sent sendfile n + (sendfile n).toInt.toNat

/-- How many of the first calls have failed. -/
def failed (sendfile : ℕ → Int64) : ℕ → ℕ
  | 0 => 0
  | n + 1 => failed sendfile n + if (sendfile n).toInt < 0 then 1 else 0

/-- A call that is made fails, or sends no more than it is asked for. -/
def Legal (sendfile : ℕ → Int64) (count : UInt64) : Prop :=
  ∀ n, (∀ i ≤ n, remains sendfile count i ≠ 0) → (sendfile n).toInt = -1 ∨ 0 ≤ (sendfile n).toInt
    ∧ (sendfile n).toInt ≤ (request (remains sendfile count n)).toNat

/-- The loop ends, the number reported is the sum of what the calls have sent and no more than was
asked for, and success is reported only if all was sent. -/
def SendsRight (c : SendfileCalls) (count : UInt64) : Prop :=
  ∃ fuel r, sendfile c count fuel = some r ∧ r.sendCount.toInt = sent c.sendfile r.calls
    ∧ r.sendCount.toInt ≤ count.toNat ∧ (r.result = 0 → sent c.sendfile r.calls = count.toNat)

variable {k : ℕ → Int64} {count : UInt64} {n fuel : ℕ}

/-- The loop ends before call `n`. -/
def Leaves (k : ℕ → Int64) (count : UInt64) (n : ℕ) : Prop :=
  remains k count n = 0 ∧ ∀ i < n, remains k count i ≠ 0

theorem loop_eq_some {r : ℕ × UInt64} (hn : ∀ i < n, remains k count i ≠ 0)
    (h : loop k fuel n (remains k count n) = some r) : Leaves k count r.1 ∧ r.2 = 0 := by
  induction fuel generalizing n with
  | zero =>
    unfold loop at h
    split_ifs at h with h0
    obtain rfl := Option.some.inj h
    exact ⟨⟨h0, hn⟩, h0⟩
  | succ fuel ih =>
    unfold loop at h
    split_ifs at h with h0
    · obtain rfl := Option.some.inj h
      exact ⟨⟨h0, hn⟩, h0⟩
    · refine ih (fun i hi => ?_) h
      rcases Nat.lt_succ_iff_lt_or_eq.1 hi with hi | rfl
      · exact hn i hi
      · exact h0

theorem loop_of_leaves (h : Leaves k count n) :
    ∀ i ≤ n, loop k (n - i) i (remains k count i) = some (n, 0) := by
  intro i hi
  obtain ⟨m, rfl⟩ := Nat.exists_eq_add_of_le hi
  rw [Nat.add_sub_cancel_left]
  induction m generalizing i with
  | zero =>
    have h0 := h.1
    rw [Nat.add_zero] at h0 ⊢
    unfold loop
    rw [if_pos h0, h0]
  | succ m ih =>
    unfold loop
    rw [if_neg (h.2 i (by omega))]
    have hrest := ih (i + 1) (by rwa [Nat.add_right_comm]) (by omega)
    rwa [Nat.add_right_comm] at hrest

/-- The loop ends exactly if it leaves before some call. -/
theorem loop_iff : (∃ fuel, loop k fuel 0 count = some (n, 0)) ↔ Leaves k count n := by
  constructor
  · rintro ⟨fuel, h⟩
    exact (loop_eq_some (n := 0) (by simp) h).1
  · intro h
    exact ⟨n, loop_of_leaves h 0 (Nat.zero_le n)⟩

/-! ## The balance -/

/-- What remains if numbers had no end. -/
def balance (k : ℕ → Int64) (count : UInt64) (n : ℕ) : ℤ :=
  count.toNat + failed k n - sent k n

theorem request_le (remain : UInt64) : (request remain).toNat ≤ remain.toNat := by
  unfold request
  split_ifs with h
  · exact UInt64.le_iff_toNat_le.1 (UInt64.le_of_lt h)
  · exact Nat.le_refl _

/-- As long as the loop goes on, what remains is the balance, which has gone round only if it has
reached the end of 64 bits. -/
theorem remains_eq (hk : Legal k count) (hn : ∀ i < n, remains k count i ≠ 0) :
    0 ≤ balance k count n ∧ balance k count n ≤ 2 ^ 64
      ∧ ((remains k count n).toNat : ℤ) = balance k count n % 2 ^ 64 := by
  induction n with
  | zero =>
    have hlt := count.toNat_lt
    unfold balance remains sent failed
    omega
  | succ n ih =>
    obtain ⟨h0, hle, heq⟩ := ih fun i hi => hn i (by omega)
    have hgoes : (remains k count n).toNat ≠ 0 := fun h =>
      hn n (Nat.lt_succ_self n) (UInt64.toNat_inj.1 h)
    have hreq := request_le (remains k count n)
    have hcall := hk n fun i hi => hn i (by omega)
    have hret := toNat_toUInt64 (k n)
    have hlt := (k n).toUInt64.toNat_lt
    have hrem := (remains k count n).toNat_lt
    have hstep : balance k count (n + 1)
        = balance k count n + (if (k n).toInt < 0 then 1 else 0) - (k n).toInt.toNat := by
      unfold balance
      rw [failed, sent]
      split_ifs <;> omega
    rw [hstep, remains, UInt64.toNat_sub]
    rcases hcall with hfail | ⟨hsent, hsmall⟩
    · rw [hfail] at hret ⊢
      omega
    · rw [if_pos hsent] at hret
      rw [if_neg (by omega)]
      omega

theorem balance_of_leaves (hk : Legal k count) (h : Leaves k count n) :
    balance k count n = 0 ∨ balance k count n = 2 ^ 64 := by
  obtain ⟨h0, hle, heq⟩ := remains_eq hk h.2
  rw [h.1] at heq
  have hzero : (0 : UInt64).toNat = 0 := rfl
  omega

/-- The loop goes on as long as the balance is between its ends. -/
theorem goes_on (hk : Legal k count)
    (h : ∀ i < n, 0 < balance k count i ∧ balance k count i < 2 ^ 64) :
    ∀ i < n, remains k count i ≠ 0 := by
  intro i
  induction i using Nat.strong_induction_on with
  | _ i ih =>
    intro hi h0
    obtain ⟨-, -, heq⟩ := remains_eq hk fun j hj => ih j hj (by omega)
    obtain ⟨hpos, hlt⟩ := h i hi
    rw [h0] at heq
    have hzero : (0 : UInt64).toNat = 0 := rfl
    omega

theorem leaves_iff (hk : Legal k count) : Leaves k count n ↔
    (balance k count n = 0 ∨ balance k count n = 2 ^ 64)
      ∧ ∀ i < n, 0 < balance k count i ∧ balance k count i < 2 ^ 64 := by
  constructor
  · intro h
    refine ⟨balance_of_leaves hk h, fun i hi => ?_⟩
    obtain ⟨h0, hle, heq⟩ := remains_eq hk fun j (hj : j < i) => h.2 j (by omega)
    have hne : (remains k count i).toNat ≠ 0 := fun hz => h.2 i hi (UInt64.toNat_inj.1 hz)
    omega
  · rintro ⟨hend, hbetween⟩
    have hon := goes_on hk hbetween
    refine ⟨UInt64.toNat_inj.1 ?_, hon⟩
    obtain ⟨-, -, heq⟩ := remains_eq hk hon
    have hzero : (0 : UInt64).toNat = 0 := rfl
    omega

/-! ## When it is right -/

theorem errnoOr_ne (errno : Int32) : errnoOr errno ≠ 0 := by
  unfold errnoOr
  split_ifs with h
  · exact h
  · decide

/-- The loop is not come to: the file cannot be opened, or the flags of the socket cannot be read or
set. -/
def Refused (c : SendfileCalls) : Prop :=
  c.openErrno ≠ none ∨ (∃ errno, c.getFlags = .error errno)
    ∨ c.getFlags = .ok true ∧ c.setFlags ≠ none

theorem start_cases (c : SendfileCalls) : Refused c ∧ (∃ errno, start c = .error (errnoOr errno))
    ∨ ¬Refused c ∧ ∃ nonblock, start c = .ok nonblock := by
  unfold Refused start
  rcases c.openErrno with _ | errno
  · rcases c.getFlags with errno | _ | _
    · simp
    · simp
    · rcases c.setFlags with _ | errno <;> simp
  · simp

/-- All is sent before a call has failed, or when exactly `2 ^ 64` have. -/
def SendsAll (k : ℕ → Int64) (count : UInt64) : Prop :=
  ∃ n, sent k n = count.toNat ∧ (failed k n = 0 ∨ failed k n = 2 ^ 64
    ∧ ∀ i < n, sent k i < count.toNat + failed k i ∧ count.toNat + failed k i < 2 ^ 64 + sent k i)

theorem failed_mono : ∀ {m n}, m ≤ n → failed k m ≤ failed k n := by
  intro m n h
  induction h with
  | refl => exact Nat.le_refl _
  | step _ ih =>
    rw [failed]
    omega

theorem sent_mono : ∀ {m n}, m ≤ n → sent k m ≤ sent k n := by
  intro m n h
  induction h with
  | refl => exact Nat.le_refl _
  | step _ ih =>
    rw [sent]
    omega

theorem sendsAll_iff (hk : Legal k count) :
    SendsAll k count ↔ ∃ n, Leaves k count n ∧ sent k n = count.toNat := by
  constructor
  · rintro ⟨n, hsent, hfail | ⟨hfail, hbetween⟩⟩
    · have hex : ∃ m, sent k m = count.toNat := ⟨n, hsent⟩
      have hfirst := Nat.find_spec hex
      have hnone : ∀ i ≤ Nat.find hex, failed k i = 0 := fun i hi => by
        have hle := failed_mono (k := k) (hi.trans (Nat.find_min' hex hsent))
        omega
      have hlt := count.toNat_lt
      refine ⟨Nat.find hex, (leaves_iff hk).2 ⟨.inl ?_, fun i hi => ?_⟩, hfirst⟩
      · have h0 := hnone _ (Nat.le_refl _)
        unfold balance
        omega
      · have h0 := hnone i (Nat.le_of_lt hi)
        have hmin := Nat.find_min hex hi
        have hle := sent_mono (k := k) (Nat.le_of_lt hi)
        unfold balance
        omega
    · refine ⟨n, (leaves_iff hk).2 ⟨.inr ?_, fun i hi => ?_⟩, hsent⟩
      · unfold balance
        omega
      · have := hbetween i hi
        unfold balance
        omega
  · rintro ⟨n, hleaves, hsent⟩
    obtain ⟨hend, hbetween⟩ := (leaves_iff hk).1 hleaves
    refine ⟨n, hsent, ?_⟩
    unfold balance at hend hbetween
    rcases hend with hend | hend
    · exact .inl (by omega)
    · refine .inr ⟨by omega, fun i hi => ?_⟩
      have := hbetween i hi
      omega

variable {c : SendfileCalls}

/-- What is reported of a loop that ends. -/
theorem sendfile_of_start (count : UInt64) {nonblock : Bool} (h : start c = .ok nonblock) :
    ∃ result, ∀ fuel, sendfile c count fuel = (loop c.sendfile fuel 0 count).map fun r =>
      ⟨result, (count - r.2).toInt64, r.1⟩ := by
  unfold sendfile
  rw [h]
  rcases nonblock
  · exact ⟨0, fun _ => rfl⟩
  · rcases c.restoreFlags with _ | errno
    · exact ⟨0, fun _ => rfl⟩
    · exact ⟨errnoOr errno, fun _ => rfl⟩

theorem sendsRight_iff_leaves : SendsRight c count ↔ Refused c ∨ count.toNat < 2 ^ 63
    ∧ ∃ n, Leaves c.sendfile count n ∧ sent c.sendfile n = count.toNat := by
  rcases start_cases c with ⟨href, errno, hstart⟩ | ⟨href, nonblock, hstart⟩
  · refine iff_of_true ⟨0, ⟨errnoOr errno, 0, 0⟩, ?_, rfl, ?_, fun h0 => ?_⟩ (.inl href)
    · unfold sendfile
      rw [hstart]
    · exact Int.natCast_nonneg _
    · exact absurd h0 (errnoOr_ne errno)
  · obtain ⟨result, hreport⟩ := sendfile_of_start count hstart
    have hcount := toInt_toInt64 count
    have hcountlt := count.toNat_lt
    rw [or_iff_right href]
    unfold SendsRight
    constructor
    · rintro ⟨fuel, r, hr, hsum, -, -⟩
      rw [hreport, Option.map_eq_some_iff] at hr
      obtain ⟨⟨n, remain⟩, hloop, rfl⟩ := hr
      obtain ⟨hleaves, hzero⟩ := loop_eq_some (n := 0) (by simp) hloop
      dsimp only at hzero hsum
      rw [hzero, UInt64.sub_zero, hcount] at hsum
      have hlt : count.toNat < 2 ^ 63 := by
        by_contra hge
        rw [if_neg hge] at hsum
        omega
      rw [if_pos hlt] at hsum
      exact ⟨hlt, n, hleaves, by omega⟩
    · rintro ⟨hlt, n, hleaves, hsent⟩
      obtain ⟨fuel, hloop⟩ := loop_iff.2 hleaves
      refine ⟨fuel, _, by rw [hreport, hloop]; rfl, ?_, ?_, fun _ => hsent⟩
      all_goals dsimp only; rw [UInt64.sub_zero, hcount, if_pos hlt]
      rw [hsent]

/-! ## A kernel that sends what it is asked for -/

/-- Each call sends all it is asked for. -/
def Full (k : ℕ → Int64) (count : UInt64) : Prop :=
  ∀ n, k n = (request (remains k count n)).toInt64

theorem toInt_request (remain : UInt64) :
    (request remain).toInt64.toInt = (request remain).toNat := by
  have hgiga : ONE_GIGA.toUInt64.toNat = 1073741824 := rfl
  have hlt : (request remain).toNat < 2 ^ 63 := by
    unfold request
    split_ifs with h
    · omega
    · have := UInt64.le_iff_toNat_le.1 (UInt64.not_lt.1 h)
      omega
  rw [toInt_toInt64, if_pos hlt]

theorem Full.legal (h : Full k count) : Legal k count := by
  intro n _
  rw [h n, toInt_request]
  exact .inr ⟨Int.natCast_nonneg _, Int.le_refl _⟩

/-- What has been sent and what remains make up the whole, and each call sends something. -/
theorem Full.progress (h : Full k count) (n : ℕ) : failed k n = 0
    ∧ sent k n + (remains k count n).toNat = count.toNat
    ∧ ((remains k count n).toNat = 0 ∨ n + (remains k count n).toNat ≤ count.toNat) := by
  induction n with
  | zero => exact ⟨rfl, Nat.zero_add _, .inr (by rw [remains]; omega)⟩
  | succ n ih =>
    obtain ⟨hfail, hsum, hpace⟩ := ih
    have hreq := request_le (remains k count n)
    have hk : (k n).toInt = (request (remains k count n)).toNat := by rw [h n, toInt_request]
    have hret := toNat_toUInt64 (k n)
    have hrem := (remains k count n).toNat_lt
    have hpos : (remains k count n).toNat ≠ 0 → (request (remains k count n)).toNat ≠ 0 := by
      unfold request
      split_ifs
      · exact fun _ => by decide
      · exact id
    rw [hk, if_pos (Int.natCast_nonneg _)] at hret
    rw [failed, sent, remains, UInt64.toNat_sub, hfail, hk, if_neg (by omega)]
    omega

theorem Full.sendsAll (h : Full k count) : SendsAll k count := by
  obtain ⟨hfail, hsum, hpace⟩ := h.progress (count.toNat + 1)
  exact ⟨count.toNat + 1, by omega, .inl hfail⟩

/-- The number reported is then the one that `Sock.sendfile` gives for a file that is there. -/
theorem Full.sendCount_eq {files : Files} {filename : Path} {file : ℕ → UInt8}
    (h : Full c.sendfile count) (hstart : ¬Refused c) (hfile : files filename = some file)
    (hlt : count.toNat < 2 ^ 63) (offset : ℕ) : ∃ fuel r, sendfile c count fuel = some r
      ∧ r.sendCount.toInt = (Sock.sendfile files filename offset count.toNat).2 := by
  obtain ⟨n, hleaves, -⟩ := (sendsAll_iff h.legal).1 h.sendsAll
  obtain ⟨fuel, hloop⟩ := loop_iff.2 hleaves
  rcases start_cases c with ⟨href, -⟩ | ⟨-, nonblock, hs⟩
  · exact absurd href hstart
  · obtain ⟨result, hreport⟩ := sendfile_of_start count hs
    refine ⟨fuel, _, by rw [hreport, hloop]; rfl, ?_⟩
    dsimp only
    rw [UInt64.sub_zero, toInt_toInt64, if_pos hlt]
    unfold Sock.sendfile
    rw [hfile]

/-- Whatever the calls give, as long as none sends more than it is asked for. -/
theorem sendsRight_iff (hk : Legal c.sendfile count) :
    SendsRight c count ↔ Refused c ∨ count.toNat < 2 ^ 63 ∧ SendsAll c.sendfile count := by
  rw [sendsRight_iff_leaves, sendsAll_iff hk]

/-- Ten bytes in two calls. -/
theorem sendsRight_iff_short : SendsRight { sendfile := fun n => if n = 0 then 7 else 3 } 10 := by
  refine (sendsRight_iff fun n hn => ?_).2 (.inr ⟨by decide, 2, by decide, .inl (by decide)⟩)
  rcases n with _ | _ | n
  · decide
  · decide
  · exact absurd (by decide) (hn 2 (by omega))

/-- A file that ends after ten of twenty bytes. -/
theorem not_sendsRight_truncated : ¬ ∀ (c : SendfileCalls) (count : UInt64),
    Legal c.sendfile count → (∀ n, c.sendfile n = 0 → c.sendfile (n + 1) = 0) →
      SendsRight c count := by
  intro h
  have hsent : ∀ n, sent (fun n => if n = 0 then 10 else 0) n ≤ 10 := by
    intro n
    rcases n with _ | n
    · decide
    · induction n with
      | zero => decide
      | succ n ih => exact ih
  have hlegal : Legal (fun n => if n = 0 then 10 else 0) 20 := by
    intro n _
    rcases n with _ | n
    · decide
    · exact .inr ⟨by simp, by simp⟩
  have hright := h ⟨none, .ok false, none, none, fun n => if n = 0 then 10 else 0⟩ 20 hlegal
    (fun n _ => by simp)
  rcases sendsRight_iff_leaves.1 hright with href | ⟨-, n, -, hall⟩
  · simp [Refused] at href
  · have hle := hsent n
    dsimp only at hall
    rw [hall] at hle
    exact absurd hle (by decide)

end Kernel

end Sock

end Longda
