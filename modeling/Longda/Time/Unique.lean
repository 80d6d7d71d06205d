import Longda.Lang.Lstring
import Longda.Lib.Hexadecimal
import Longda.Lib.Machine

/-!
# Unique time stamps

`Now::unique` reads the clock, and under a lock takes what it has read if that is above the last
value handed out, and the number after the last value otherwise. The threads read the clock outside
the lock, in any order and with any readings. As long as the values stay below `2 ^ 56` they go up
in the order of the lock, and so do their texts of 14 digits (`unique_increasing`).
-/

namespace Longda

open Lib

structure ClockReading where
  tvSec : Int64
  tvUsec : Int64

namespace Now

def OBJ_ID_TIMESTMP_DIGITS : ℕ := 14

/-- Where a thread is in `unique`: outside, with its reading before the lock, or behind the lock, in
which it was the `call`-th thread. -/
inductive Pc where
  | out
  | hasRead (temp : UInt64)
  | unlocked (call : ℕ) (temp : UInt64)
  deriving DecidableEq

/-- The threads, the values in the order of the lock, and what has been returned of them. -/
structure World where
  lastUnique : UInt64 := 0
  pc : ℕ → Pc := fun _ => .out
  handed : List UInt64 := []
  returned : ℕ → Option Str := fun _ => none

inductive Step where
  | gettimeofday (t : ℕ) (tv : ClockReading)
  | locked (t : ℕ)
  | ret (t : ℕ)

def Step.isLocked : Step → Bool
  | .locked _ => true
  | _ => false

/-- `(tv.tv_sec << 20) + tv.tv_usec`. -/
def stamp (tv : ClockReading) : UInt64 := tv.tvSec.toUInt64 <<< 20 + tv.tvUsec.toUInt64

/-- What the critical section makes of `temp`, which is `lastUnique` behind it. -/
def nextUnique (lastUnique temp : UInt64) : UInt64 :=
  if temp > lastUnique then temp else lastUnique + 1

/-- The text that is returned. -/
def text (temp : UInt64) : Str := hexPadded OBJ_ID_TIMESTMP_DIGITS temp.toNat

namespace World

def at_ (w : World) (t : ℕ) (pc : Pc) : World := { w with pc := Function.update w.pc t pc }

def step (w : World) : Step → Option World
  | .gettimeofday t tv => if w.pc t = .out then some (w.at_ t (.hasRead (stamp tv))) else none
  | .locked t =>
    match w.pc t with
    | .hasRead temp =>
      let temp := nextUnique w.lastUnique temp
      some { w.at_ t (.unlocked w.handed.length temp) with
        lastUnique := temp, handed := w.handed ++ [temp] }
    | _ => none
  | .ret t =>
    match w.pc t with
    | .unlocked call temp =>
      some { w.at_ t .out with returned := Function.update w.returned call (some (text temp)) }
    | _ => none

end World

def unique : Machine World Step := ⟨World.step⟩

/-! ## What the steps keep -/

variable {w w' : World} {l : Step}

/-- The texts are those of the values, and each value has its text returned or is still with the
thread that got it. -/
structure World.Told (w : World) : Prop where
  unlocked : ∀ t call temp, w.pc t = .unlocked call temp → w.handed[call]? = some temp
  returned : ∀ call s, w.returned call = some s →
    ∃ temp, w.handed[call]? = some temp ∧ s = text temp
  kept : ∀ call temp, w.handed[call]? = some temp →
    w.returned call = some (text temp) ∨ ∃ t, w.pc t = .unlocked call temp

/-- The values go up to the last one. -/
structure World.Rising (w : World) : Prop where
  pairwise : w.handed.Pairwise (· < ·)
  le_last : ∀ v ∈ w.handed, v ≤ w.lastUnique
  last : w.lastUnique = 0 ∨ w.lastUnique ∈ w.handed

/-- What a step does. -/
theorem step_cases (hs : w.step l = some w') :
    (∃ t pc, w.pc t = .out ∧ (∀ call temp, pc ≠ .unlocked call temp) ∧ w' = w.at_ t pc) ∨
    (∃ t temp, w.pc t = .hasRead temp ∧ w' =
      { w.at_ t (.unlocked w.handed.length (nextUnique w.lastUnique temp)) with
        lastUnique := nextUnique w.lastUnique temp
        handed := w.handed ++ [nextUnique w.lastUnique temp] }) ∨
    ∃ t call temp, w.pc t = .unlocked call temp ∧ w' =
      { w.at_ t .out with returned := Function.update w.returned call (some (text temp)) } := by
  cases l with
  | gettimeofday t tv =>
    obtain ⟨hpc, hs⟩ := Option.ite_none_right_eq_some.1 hs
    exact .inl ⟨t, .hasRead (stamp tv), hpc, fun _ _ => Pc.noConfusion, (Option.some.inj hs).symm⟩
  | locked t =>
    simp only [World.step] at hs
    rcases hpc : w.pc t with _ | temp | ⟨call, temp⟩ <;> rw [hpc] at hs
    · cases hs
    · exact .inr (.inl ⟨t, temp, hpc, (Option.some.inj hs).symm⟩)
    · cases hs
  | ret t =>
    simp only [World.step] at hs
    rcases hpc : w.pc t with _ | temp | ⟨call, temp⟩ <;> rw [hpc] at hs
    · cases hs
    · cases hs
    · exact .inr (.inr ⟨t, call, temp, hpc, (Option.some.inj hs).symm⟩)

theorem handed_grows (hs : w.step l = some w') : w.handed <+: w'.handed := by
  obtain ⟨t, pc, -, -, rfl⟩ | ⟨t, temp, -, rfl⟩ | ⟨t, call, temp, -, rfl⟩ := step_cases hs
  · exact List.prefix_rfl
  · exact List.prefix_append _ _
  · exact List.prefix_rfl

/-- A thread that holds no value leaves those that do as they are. -/
theorem World.unlocked_of_ne {t u call : ℕ} {temp : UInt64} {pc : Pc}
    (ht : ∀ call temp, w.pc t ≠ .unlocked call temp) (hu : w.pc u = .unlocked call temp) :
    (w.at_ t pc).pc u = .unlocked call temp := by
  have hne : u ≠ t := fun heq => ht call temp (heq ▸ hu)
  exact (Function.update_of_ne hne _ _).trans hu

theorem World.Told.step (h : w.Told) (hs : w.step l = some w') : w'.Told := by
  obtain ⟨t, pc, hout, hpc, rfl⟩ | ⟨t, temp, hread, rfl⟩ | ⟨t, call, temp, hpc, rfl⟩ :=
    step_cases hs
  · refine ⟨fun u call temp hu => ?_, h.returned, fun call temp hc => ?_⟩
    · simp only [World.at_, Function.update_apply] at hu
      split_ifs at hu with heq
      · exact absurd hu (hpc call temp)
      · exact h.unlocked u call temp hu
    · exact (h.kept call temp hc).imp_right fun ⟨u, hu⟩ =>
        ⟨u, World.unlocked_of_ne (by simp [hout]) hu⟩
  · refine ⟨fun u call v hu => ?_, fun call s hr => ?_, fun call v hc => ?_⟩
    · simp only [World.at_, Function.update_apply] at hu
      split_ifs at hu with heq
      · obtain ⟨rfl, rfl⟩ := Pc.unlocked.inj hu
        exact List.getElem?_concat_length ..
      · obtain ⟨hlt, -⟩ := List.getElem?_eq_some_iff.1 (h.unlocked u call v hu)
        rw [List.getElem?_append_left hlt]
        exact h.unlocked u call v hu
    · obtain ⟨v, hv, hs⟩ := h.returned call s hr
      obtain ⟨hlt, -⟩ := List.getElem?_eq_some_iff.1 hv
      exact ⟨v, (List.getElem?_append_left hlt).trans hv, hs⟩
    · rcases lt_or_ge call w.handed.length with hlt | hge
      · rw [List.getElem?_append_left hlt] at hc
        exact (h.kept call v hc).imp_right fun ⟨u, hu⟩ =>
          ⟨u, World.unlocked_of_ne (by simp [hread]) hu⟩
      · obtain ⟨hlt, hv⟩ := List.getElem?_eq_some_iff.1 hc
        obtain rfl : call = w.handed.length := by
          simp only [List.length_append, List.length_singleton] at hlt
          omega
        rw [List.getElem_concat_length rfl] at hv
        exact .inr ⟨t, by rw [← hv]; exact Function.update_self _ _ _⟩
  · refine ⟨fun u call' v hu => ?_, fun call' s hr => ?_, fun call' v hc => ?_⟩
    · simp only [World.at_, Function.update_apply] at hu
      split_ifs at hu with heq
      exact h.unlocked u call' v hu
    · dsimp only at hr
      rw [Function.update_apply] at hr
      split_ifs at hr with heq
      · exact ⟨temp, heq ▸ h.unlocked t call temp hpc, (Option.some.inj hr).symm⟩
      · exact h.returned call' s hr
    · dsimp only
      rw [Function.update_apply]
      by_cases heq : call' = call
      · have hv : some temp = some v := (h.unlocked t call temp hpc).symm.trans (heq ▸ hc)
        rw [if_pos heq, Option.some.inj hv]
        exact .inl rfl
      · rw [if_neg heq]
        refine (h.kept call' v hc).imp_right fun ⟨u, hu⟩ => ⟨u, ?_⟩
        have hne : u ≠ t := by
          rintro rfl
          exact heq (Pc.unlocked.inj (hu.symm.trans hpc)).1
        exact (Function.update_of_ne hne _ _).trans hu

/-- Each passage through the lock hands out a value. -/
theorem length_handed_step (hs : w.step l = some w') :
    w'.handed.length = w.handed.length + l.isLocked.toNat := by
  cases l <;> simp only [World.step] at hs <;> split at hs <;> cases hs
  · rfl
  · exact List.length_append
  · rfl

theorem length_handed : ∀ {steps : List Step} {w w' : World}, unique.run w steps = some w' →
    w'.handed.length = w.handed.length + steps.countP Step.isLocked
  | [], w, w', hrun => by
    obtain rfl := Option.some.inj hrun
    rfl
  | l :: steps, w, w', hrun => by
    obtain ⟨u, hu, hrun⟩ := Option.bind_eq_some_iff.1 hrun
    rw [length_handed hrun, length_handed_step hu, List.countP_cons, Nat.add_assoc, Nat.add_comm
      (List.countP _ _)]
    cases l.isLocked <;> rfl

/-- The value that is handed out is above the last one. -/
theorem lt_nextUnique {lastUnique : UInt64} (h : lastUnique.toNat < 2 ^ 56) (temp : UInt64) :
    lastUnique < nextUnique lastUnique temp := by
  unfold nextUnique
  split_ifs with hlt
  · exact hlt
  · rw [UInt64.lt_iff_toNat_lt, UInt64.toNat_add]
    have : (1 : UInt64).toNat = 1 := rfl
    omega

theorem World.Rising.step (h : w.Rising) (hs : w.step l = some w')
    (hlt : ∀ v ∈ w'.handed, v.toNat < 2 ^ 56) : w'.Rising := by
  obtain ⟨t, pc, -, -, rfl⟩ | ⟨t, temp, -, rfl⟩ | ⟨t, call, temp, -, rfl⟩ := step_cases hs
  · exact ⟨h.pairwise, h.le_last, h.last⟩
  · have hlast : w.lastUnique.toNat < 2 ^ 56 := by
      rcases h.last with h0 | hmem
      · rw [h0]
        decide
      · exact hlt _ (List.mem_append_left _ hmem)
    have hnext := lt_nextUnique hlast temp
    refine ⟨?_, fun v hv => ?_, .inr (List.mem_concat_self ..)⟩
    · rw [List.pairwise_append]
      refine ⟨h.pairwise, List.pairwise_singleton _ _, fun v hv v' hv' => ?_⟩
      rw [List.mem_singleton.1 hv']
      exact UInt64.lt_of_le_of_lt (h.le_last v hv) hnext
    · rcases List.mem_append.1 hv with hv | hv
      · exact UInt64.le_of_lt (UInt64.lt_of_le_of_lt (h.le_last v hv) hnext)
      · exact UInt64.le_of_eq (List.mem_singleton.1 hv)
  · exact ⟨h.pairwise, h.le_last, h.last⟩

/-- The same along a run, whatever the clock says. -/
theorem told_and_rising {steps : List Step} (hrun : unique.run {} steps = some w) :
    w.Told ∧ ((∀ v ∈ w.handed, v.toNat < 2 ^ 56) → w.Rising) := by
  refine unique.run_inv_of_step
    (I := fun w => w.Told ∧ ((∀ v ∈ w.handed, v.toNat < 2 ^ 56) → w.Rising)) ?_ steps ?_ hrun
  · rintro u l u' ⟨htold, hrising⟩ hs
    refine ⟨htold.step hs, fun hlt => ?_⟩
    exact (hrising fun v hv => hlt v ((handed_grows hs).subset hv)).step hs hlt
  · refine ⟨⟨fun _ _ _ h => (nomatch h), fun _ _ h => (nomatch h), fun _ _ h => (nomatch h)⟩,
      fun _ => ⟨.nil, ?_, .inl rfl⟩⟩
    exact fun v hv => absurd hv List.not_mem_nil

theorem text_eq {temp : UInt64} (h : temp.toNat < 2 ^ 56) :
    text temp = hexDigits OBJ_ID_TIMESTMP_DIGITS temp.toNat := hexPadded_eq (by decide) h

/-- The values handed out go up in the order of the lock, and so do the texts that the calls
return, which have 14 digits. Each call that has been in the lock got a value of its own, and its
text has been returned or will be by a thread behind the lock. -/
theorem unique_increasing {steps : List Step} {w : World} (hrun : unique.run {} steps = some w)
    (hlt : ∀ v ∈ w.handed, v.toNat < 2 ^ 56) : w.handed.Pairwise (· < ·) ∧
      (∀ call s, w.returned call = some s → s.length = 14 ∧ ∀ c ∈ s, IsHexDigit c) ∧
      (∀ call call' s s', call < call' → w.returned call = some s → w.returned call' = some s' →
        s < s' ∧ s ≠ s') ∧
      w.handed.length = steps.countP Step.isLocked ∧
      ∀ call temp, w.handed[call]? = some temp →
        w.returned call = some (text temp) ∨ ∃ t, w.pc t = .unlocked call temp := by
  obtain ⟨htold, hrising⟩ := told_and_rising hrun
  have hpairwise := (hrising hlt).pairwise
  have hlength : w.handed.length = 0 + steps.countP Step.isLocked := length_handed hrun
  refine ⟨hpairwise, fun call s hs => ?_, fun call call' s s' hcalls hs hs' => ?_,
    hlength.trans (Nat.zero_add _), htold.kept⟩
  · obtain ⟨temp, htemp, rfl⟩ := htold.returned call s hs
    rw [text_eq (hlt temp (List.mem_of_getElem? htemp))]
    exact ⟨length_hexDigits _ _, fun c => isHexDigit_of_mem_hexDigits⟩
  · obtain ⟨temp, htemp, rfl⟩ := htold.returned call s hs
    obtain ⟨temp', htemp', rfl⟩ := htold.returned call' s' hs'
    obtain ⟨hcall, rfl⟩ := List.getElem?_eq_some_iff.1 htemp
    obtain ⟨hcall', rfl⟩ := List.getElem?_eq_some_iff.1 htemp'
    have hvalues := List.pairwise_iff_getElem.1 hpairwise call call' hcall hcall' hcalls
    have htexts : text w.handed[call] < text w.handed[call'] :=
      hexPadded_lt (by decide) hvalues (hlt _ (List.getElem_mem hcall'))
    exact ⟨htexts, fun heq => List.lt_irrefl _ (heq ▸ htexts)⟩

/-- Two threads that read the clock in one order and take the lock in the other, and the first again
when the clock has been set back. -/
def backward : List Step :=
  [.gettimeofday 0 ⟨1000, 5⟩, .gettimeofday 1 ⟨1000, 5⟩, .locked 1, .locked 0, .ret 0, .ret 1,
    .gettimeofday 0 ⟨7, 0⟩, .locked 0, .ret 0]

theorem unique_increasing_backward : ∃ w, unique.run {} backward = some w ∧
    w.handed.Pairwise (· < ·) ∧
      (∀ call s, w.returned call = some s → s.length = 14 ∧ ∀ c ∈ s, IsHexDigit c) ∧
      (∀ call call' s s', call < call' → w.returned call = some s → w.returned call' = some s' →
        s < s' ∧ s ≠ s') ∧
      w.handed.length = 3 ∧
      ∀ call temp, w.handed[call]? = some temp →
        w.returned call = some (text temp) ∨ ∃ t, w.pc t = .unlocked call temp := by
  obtain ⟨w, hw⟩ : ∃ w, unique.run {} backward = some w := ⟨_, rfl⟩
  have hhanded : (unique.run {} backward).map World.handed =
      some [1048576005, 1048576006, 1048576007] := by decide
  rw [hw, Option.map_some, Option.some.injEq] at hhanded
  have hsmall : w.handed.all (fun v => decide (v.toNat < 2000000000)) = true := by
    rw [hhanded]
    decide
  exact ⟨w, hw, unique_increasing hw fun v hv =>
    (of_decide_eq_true (List.all_eq_true.1 hsmall v hv)).trans (by omega)⟩

end Now

end Longda
