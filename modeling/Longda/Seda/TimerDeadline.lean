import Longda.Seda.TimerStage
import Mathlib.Algebra.Group.Int.Defs
import Mathlib.Algebra.Group.Nat.Defs

/-!
# The deadlines of timers

A `TimerRegisterEvent` turns a delay, or a time of the wall clock, into a deadline of the monotonic
clock. The delay is unsigned and is added to a signed field, so that one of `2 ^ 63` microseconds or
more is taken for a negative one, or for a small one. Otherwise the deadlines are exact and
normalized as long as no signed step overflows (`deadline_exact_iff`).
-/

namespace Longda

def USEC_PER_SEC : ℤ := 1000000

def InS64 (x : ℤ) : Prop := -2 ^ 63 ≤ x ∧ x < 2 ^ 63

instance (x : ℤ) : Decidable (InS64 x) := inferInstanceAs (Decidable (_ ∧ _))

/-- A step of signed arithmetic, which may overflow. -/
def s64? (x : ℤ) : Option ℤ := if InS64 x then some x else none

/-- What an unsigned number is once it is put into a signed field. -/
def ofU64 (x : UInt64) : ℤ := (x.toNat : ℤ).bmod (2 ^ 64)

/-- The loop of `subTimeval`. -/
def borrow (result : Timeval) : Option Timeval :=
  if result.tvUsec < 0 then
    match s64? (result.tvSec - 1) with
    | none => none
    | some tvSec => borrow ⟨tvSec, result.tvUsec + USEC_PER_SEC⟩
  else some result
termination_by (-result.tvUsec).toNat
decreasing_by
  unfold USEC_PER_SEC
  omega

def subTimeval (t1 t2 : Timeval) : Option Timeval := do
  let tvSec ← s64? (t1.tvSec - t2.tvSec)
  let tvUsec ← s64? (t1.tvUsec - t2.tvUsec)
  borrow ⟨tvSec, tvUsec⟩

/-- The loop of `addTimeval`. -/
def carry (result : Timeval) : Option Timeval :=
  if result.tvUsec ≥ USEC_PER_SEC then
    match s64? (result.tvSec + 1) with
    | none => none
    | some tvSec => carry ⟨tvSec, result.tvUsec - USEC_PER_SEC⟩
  else some result
termination_by result.tvUsec.toNat
decreasing_by
  unfold USEC_PER_SEC at *
  omega

def addTimeval (t1 t2 : Timeval) : Option Timeval := do
  let tvSec ← s64? (t1.tvSec + t2.tvSec)
  let tvUsec ← s64? (t1.tvUsec + t2.tvUsec)
  carry ⟨tvSec, tvUsec⟩

/-- The wall clock reads `timeNow`, and the monotonic one `timeTs`. -/
def realtimeToMonotonic (timeNow : Timeval) (timeTs : Timespec) (timeRT : Timeval) :
    Option Timeval := do
  let timeOffset ← subTimeval timeRT timeNow
  addTimeval timeTs.toTimeval timeOffset

namespace TimerRegisterEvent

/-- The deadline for a delay. -/
def relative (timerSpec : Timespec) (timeRelativeUsec : UInt64) : Option Timeval := do
  let timerWhen := timerSpec.toTimeval
  let tvUsec := ofU64 (UInt64.ofInt timerWhen.tvUsec + timeRelativeUsec)
  if tvUsec ≥ USEC_PER_SEC then
    let tvSec ← s64? (timerWhen.tvSec + tvUsec.tdiv USEC_PER_SEC)
    some ⟨tvSec, tvUsec.tmod USEC_PER_SEC⟩
  else some ⟨timerWhen.tvSec, tvUsec⟩

/-- The deadline for a time of the wall clock. -/
def absolute (timeNow : Timeval) (timeTs : Timespec) (timeAbsolute : Timeval) : Option Timeval :=
  realtimeToMonotonic timeNow timeTs timeAbsolute

end TimerRegisterEvent

/-- The time in microseconds. -/
def Timeval.total (t : Timeval) : ℤ := t.tvSec * USEC_PER_SEC + t.tvUsec

structure Timeval.Normal (t : Timeval) : Prop where
  sec : InS64 t.tvSec
  nonneg : 0 ≤ t.tvUsec
  lt : t.tvUsec < USEC_PER_SEC

structure Timespec.Normal (t : Timespec) : Prop where
  sec : InS64 t.tvSec
  nonneg : 0 ≤ t.tvNsec
  lt : t.tvNsec < 1000000000

/-- The deadline is normalized and so many microseconds. -/
def Deadline (deadline : Option Timeval) (usec : ℤ) : Prop :=
  ∃ t, deadline = some t ∧ t.Normal ∧ t.total = usec

theorem Timespec.Normal.toTimeval {t : Timespec} (h : t.Normal) : t.toTimeval.Normal := by
  have h0 := h.nonneg
  have h1 := h.lt
  refine ⟨h.sec, ?_, ?_⟩ <;> unfold Timespec.toTimeval NSEC_PER_USEC <;> dsimp only
  · omega
  · unfold USEC_PER_SEC
    omega

variable {t1 t2 t : Timeval}

/-- The normalized time of so many microseconds. -/
def Timeval.ofTotal (usec : ℤ) : Timeval := ⟨usec / USEC_PER_SEC, usec % USEC_PER_SEC⟩

/-- The time, if its seconds fit. -/
def fitting (usec : ℤ) : Option Timeval :=
  if InS64 (Timeval.ofTotal usec).tvSec then some (.ofTotal usec) else none

theorem s64?_of {x : ℤ} (h : InS64 x) : s64? x = some x := if_pos h

theorem ofTotal_eq {usec sec : ℤ} (h0 : 0 ≤ usec) (h1 : usec < USEC_PER_SEC) :
    Timeval.ofTotal (sec * USEC_PER_SEC + usec) = ⟨sec, usec⟩ := by
  unfold Timeval.ofTotal USEC_PER_SEC at *
  rw [Timeval.mk.injEq]
  omega

theorem fitting_eq {usec sec : ℤ} (h0 : 0 ≤ usec) (h1 : usec < USEC_PER_SEC) :
    fitting (sec * USEC_PER_SEC + usec) = (s64? sec).map fun sec => ⟨sec, usec⟩ := by
  unfold fitting s64?
  rw [ofTotal_eq h0 h1]
  split_ifs <;> rfl

theorem borrow_eq (hsec : InS64 t.tvSec) (h0 : -USEC_PER_SEC ≤ t.tvUsec)
    (h1 : t.tvUsec < USEC_PER_SEC) : borrow t = fitting t.total := by
  unfold borrow
  split_ifs with hneg
  · have htotal : t.total = (t.tvSec - 1) * USEC_PER_SEC + (t.tvUsec + USEC_PER_SEC) := by
      unfold Timeval.total USEC_PER_SEC
      omega
    rw [htotal, fitting_eq (by omega) (by omega)]
    rcases s64? (t.tvSec - 1) with _ | tvSec
    · rfl
    · dsimp only
      unfold borrow
      rw [if_neg (by dsimp only; omega)]
      rfl
  · unfold Timeval.total
    rw [fitting_eq (by omega) h1, s64?_of hsec]
    rfl

theorem carry_eq (hsec : InS64 t.tvSec) (h0 : 0 ≤ t.tvUsec) (h1 : t.tvUsec < 2 * USEC_PER_SEC) :
    carry t = fitting t.total := by
  unfold carry
  split_ifs with hover
  · have htotal : t.total = (t.tvSec + 1) * USEC_PER_SEC + (t.tvUsec - USEC_PER_SEC) := by
      unfold Timeval.total USEC_PER_SEC
      omega
    rw [htotal, fitting_eq (by omega) (by omega)]
    rcases s64? (t.tvSec + 1) with _ | tvSec
    · rfl
    · dsimp only
      unfold carry
      rw [if_neg (by dsimp only; omega)]
      rfl
  · unfold Timeval.total
    rw [fitting_eq h0 (by omega), s64?_of hsec]
    rfl

theorem subTimeval_eq (h1 : t1.Normal) (h2 : t2.Normal) : subTimeval t1 t2
    = (s64? (t1.tvSec - t2.tvSec)).bind fun _ => fitting (t1.total - t2.total) := by
  obtain ⟨-, hn1, hl1⟩ := h1
  obtain ⟨-, hn2, hl2⟩ := h2
  have husec : InS64 (t1.tvUsec - t2.tvUsec) := by
    unfold InS64 USEC_PER_SEC at *
    omega
  have htotal : t1.total - t2.total
      = Timeval.total ⟨t1.tvSec - t2.tvSec, t1.tvUsec - t2.tvUsec⟩ := by
    unfold Timeval.total USEC_PER_SEC
    dsimp only
    omega
  unfold subTimeval
  rw [htotal]
  by_cases hsec : InS64 (t1.tvSec - t2.tvSec)
  · simp only [Option.bind_eq_bind, s64?_of husec, s64?_of hsec, Option.bind_some]
    exact borrow_eq hsec (by dsimp only; omega) (by dsimp only; omega)
  · simp [s64?, hsec]

theorem addTimeval_eq (h1 : t1.Normal) (h2 : t2.Normal) : addTimeval t1 t2
    = (s64? (t1.tvSec + t2.tvSec)).bind fun _ => fitting (t1.total + t2.total) := by
  obtain ⟨-, hn1, hl1⟩ := h1
  obtain ⟨-, hn2, hl2⟩ := h2
  have husec : InS64 (t1.tvUsec + t2.tvUsec) := by
    unfold InS64 USEC_PER_SEC at *
    omega
  have htotal : t1.total + t2.total
      = Timeval.total ⟨t1.tvSec + t2.tvSec, t1.tvUsec + t2.tvUsec⟩ := by
    unfold Timeval.total USEC_PER_SEC
    dsimp only
    omega
  unfold addTimeval
  rw [htotal]
  by_cases hsec : InS64 (t1.tvSec + t2.tvSec)
  · simp only [Option.bind_eq_bind, s64?_of husec, s64?_of hsec, Option.bind_some]
    exact carry_eq hsec (by dsimp only; omega) (by dsimp only; omega)
  · simp [s64?, hsec]

variable {usec : ℤ}

theorem Timeval.ofTotal_normal (h : InS64 (Timeval.ofTotal usec).tvSec) :
    (Timeval.ofTotal usec).Normal := by
  refine ⟨h, ?_, ?_⟩ <;> unfold Timeval.ofTotal USEC_PER_SEC <;> dsimp only <;> omega

theorem Timeval.total_ofTotal (usec : ℤ) : (Timeval.ofTotal usec).total = usec := by
  unfold Timeval.ofTotal Timeval.total USEC_PER_SEC
  dsimp only
  omega

theorem deadline_fitting : Deadline (fitting usec) usec ↔ InS64 (Timeval.ofTotal usec).tvSec := by
  unfold fitting Deadline
  constructor
  · rintro ⟨t, ht, -⟩
    split_ifs at ht with h
    exact h
  · intro h
    rw [if_pos h]
    exact ⟨_, rfl, Timeval.ofTotal_normal h, Timeval.total_ofTotal usec⟩

theorem deadline_s64? {x : ℤ} {o : Option Timeval} :
    Deadline ((s64? x).bind fun _ => o) usec ↔ InS64 x ∧ Deadline o usec := by
  unfold s64?
  split_ifs with h <;> simp [h, Deadline]

/-- The delay does not reach the sign, nor the sum the end of the seconds. -/
structure DelayFits (now : Timespec) (delay : UInt64) : Prop where
  usec : now.toTimeval.tvUsec + delay.toNat < 2 ^ 63
  sec : InS64 (Timeval.ofTotal (now.toTimeval.total + delay.toNat)).tvSec

/-- No seconds on the way overflow: those of the difference, before and after the borrow, and those
of the sum, before and after the carry. -/
structure DistanceFits (wall : Timeval) (now : Timespec) (time : Timeval) : Prop where
  difference : InS64 (time.tvSec - wall.tvSec)
  borrowed : InS64 (Timeval.ofTotal (time.total - wall.total)).tvSec
  sum : InS64 (now.tvSec + (Timeval.ofTotal (time.total - wall.total)).tvSec)
  carried : InS64 (Timeval.ofTotal (now.toTimeval.total + (time.total - wall.total))).tvSec

variable {now : Timespec} {wall time : Timeval} {delay : UInt64}

/-- The sum as the signed field has it. -/
theorem ofU64_add {x : ℤ} (h0 : 0 ≤ x) (h1 : x < USEC_PER_SEC) :
    ofU64 (UInt64.ofInt x + delay) = if x + delay.toNat < 2 ^ 63 then x + delay.toNat
      else x + delay.toNat - 2 ^ 64 := by
  have hdelay := delay.toNat_lt
  have hx : (UInt64.ofInt x).toNat = x.toNat := by
    unfold UInt64.ofInt USEC_PER_SEC at *
    rw [UInt64.toNat_ofNat']
    omega
  unfold ofU64 USEC_PER_SEC at *
  rw [UInt64.toNat_add, hx, Int.bmod_def]
  split_ifs <;> omega

theorem relative_eq (h : now.Normal) (hlt : now.toTimeval.tvUsec + delay.toNat < 2 ^ 63) :
    TimerRegisterEvent.relative now delay = fitting (now.toTimeval.total + delay.toNat) := by
  obtain ⟨hsec, h0, h1⟩ := h.toTimeval
  unfold TimerRegisterEvent.relative
  dsimp only
  rw [ofU64_add h0 h1, if_pos hlt]
  generalize now.toTimeval = t at *
  split_ifs with hover
  · rw [Int.tdiv_eq_ediv_of_nonneg (by omega), Int.tmod_eq_emod_of_nonneg (by omega)]
    have htotal : t.total + delay.toNat
        = (t.tvSec + (t.tvUsec + delay.toNat) / USEC_PER_SEC) * USEC_PER_SEC
          + (t.tvUsec + delay.toNat) % USEC_PER_SEC := by
      unfold Timeval.total USEC_PER_SEC
      omega
    rw [htotal, fitting_eq (by unfold USEC_PER_SEC; omega) (by unfold USEC_PER_SEC; omega),
      Option.map_eq_bind]
    rfl
  · have htotal : t.total + delay.toNat = t.tvSec * USEC_PER_SEC + (t.tvUsec + delay.toNat) := by
      unfold Timeval.total
      omega
    rw [htotal, fitting_eq (by omega) (by omega), s64?_of hsec]
    rfl

theorem relative_iff (h : now.Normal) :
    Deadline (TimerRegisterEvent.relative now delay) (now.toTimeval.total + delay.toNat)
      ↔ DelayFits now delay := by
  by_cases hlt : now.toTimeval.tvUsec + delay.toNat < 2 ^ 63
  · rw [relative_eq h hlt, deadline_fitting]
    exact ⟨fun hsec => ⟨hlt, hsec⟩, DelayFits.sec⟩
  · refine iff_of_false ?_ fun hfits => hlt hfits.usec
    have hdelay := delay.toNat_lt
    obtain ⟨-, h0, h1⟩ := h.toTimeval
    unfold TimerRegisterEvent.relative
    dsimp only
    rw [ofU64_add h0 h1, if_neg hlt, if_neg (by unfold USEC_PER_SEC at *; omega)]
    rintro ⟨t, ht, -, htotal⟩
    rw [← Option.some.inj ht] at htotal
    unfold Timeval.total at htotal
    dsimp only at htotal
    omega

theorem absolute_iff (hwall : wall.Normal) (h : now.Normal) (htime : time.Normal) :
    Deadline (TimerRegisterEvent.absolute wall now time)
      (now.toTimeval.total + (time.total - wall.total)) ↔ DistanceFits wall now time := by
  unfold TimerRegisterEvent.absolute realtimeToMonotonic
  rw [subTimeval_eq htime hwall, Option.bind_eq_bind, Option.bind_assoc, deadline_s64?]
  unfold fitting
  split_ifs with hborrow
  · have hnormal := Timeval.ofTotal_normal hborrow
    rw [Option.bind_some, addTimeval_eq h.toTimeval hnormal, Timeval.total_ofTotal, deadline_s64?,
      deadline_fitting]
    exact ⟨fun ⟨hd, hs, hc⟩ => ⟨hd, hborrow, hs, hc⟩,
      fun hfits => ⟨hfits.difference, hfits.sum, hfits.carried⟩⟩
  · refine iff_of_false ?_ fun hfits => hborrow hfits.borrowed
    simp [Deadline]

/-- For every delay and every time, and whatever the clocks read. -/
theorem deadline_exact_iff (hnow : now.Normal) (hwall : wall.Normal) (htime : time.Normal) :
    (Deadline (TimerRegisterEvent.relative now delay) (now.toTimeval.total + delay.toNat)
      ↔ DelayFits now delay)
    ∧ (Deadline (TimerRegisterEvent.absolute wall now time)
        (now.toTimeval.total + (time.total - wall.total)) ↔ DistanceFits wall now time) :=
  ⟨relative_iff hnow, absolute_iff hwall hnow htime⟩

/-- A delay with a carry, and a time of the past with a borrow. -/
theorem deadline_exact_iff_carry :
    Deadline (TimerRegisterEvent.relative ⟨7, 999999999⟩ 2500001) 10500000
    ∧ Deadline (TimerRegisterEvent.absolute ⟨1700000000, 5⟩ ⟨7, 999999999⟩ ⟨1699999999, 4⟩)
        6999998 := by
  obtain ⟨hrelative, habsolute⟩ := @deadline_exact_iff ⟨7, 999999999⟩ ⟨1700000000, 5⟩
    ⟨1699999999, 4⟩ 2500001 ⟨by decide, by decide, by decide⟩ ⟨by decide, by decide, by decide⟩
    ⟨by decide, by decide, by decide⟩
  exact ⟨hrelative.2 ⟨by decide, by decide⟩,
    habsolute.2 ⟨by decide, by decide, by decide, by decide⟩⟩

/-- A delay of `2 ^ 63` microseconds is taken for a negative one. -/
theorem not_deadline_sign : ¬ ∀ (now : Timespec) (delay : UInt64), now.Normal →
    Deadline (TimerRegisterEvent.relative now delay) (now.toTimeval.total + delay.toNat) := by
  intro h
  have hnormal : Timespec.Normal ⟨7, 0⟩ := ⟨by decide, by decide, by decide⟩
  have hfits := (relative_iff hnormal).1 (h ⟨7, 0⟩ 9223372036854775808 hnormal)
  exact absurd hfits.usec (by decide)

end Longda
