import Mathlib.Algebra.GroupWithZero.Nat
import Mathlib.Data.List.Basic

/-!
# Threads counted by what they do

The threads of a program are a list of what each does, and an invariant counts those that do
something. A thread that goes on to something else changes each count by what it leaves and what it
enters (`countP_set`). A signal on a condition variable wakes one of the threads that wait on it,
and is lost if none does.
-/

namespace Lib

variable {π : Type*} {ts us : List π} {i : ℕ} {t u : π} {f waits : π → Bool} {wake : π → π}

theorem countP_set (h : ts[i]? = some t) (f : π → Bool) (u : π) :
    (ts.set i u).countP f + (f t).toNat = ts.countP f + (f u).toNat := by
  obtain ⟨hi, rfl⟩ := List.getElem?_eq_some_iff.1 h
  have hle : (f ts[i]).toNat ≤ ts.countP f := by
    rcases hf : f ts[i]
    · exact Nat.zero_le _
    · exact List.countP_pos_iff.2 ⟨ts[i], List.getElem_mem hi, hf⟩
  have hnat : ∀ b : Bool, (if b = true then 1 else 0) = b.toNat := by
    intro b
    cases b <;> rfl
  rw [List.countP_set hi, hnat, hnat]
  omega

/-- The same for what the threads weigh. -/
theorem sum_map_set (h : ts[i]? = some t) (weight : π → ℕ) (u : π) :
    ((ts.set i u).map weight).sum + weight t = (ts.map weight).sum + weight u := by
  induction ts generalizing i with
  | nil => cases h
  | cons x xs ih =>
    rcases i with _ | i
    · obtain rfl : x = t := by simpa using h
      simp only [List.set_cons_zero, List.map_cons, List.sum_cons]
      omega
    · have := ih (by simpa using h)
      simp only [List.set_cons_succ, List.map_cons, List.sum_cons]
      omega

theorem countP_pos_of_getElem? (h : ts[i]? = some t) (hf : f t = true) : 0 < ts.countP f :=
  List.countP_pos_iff.2 ⟨t, List.mem_of_getElem? h, hf⟩

/-- A signal, of which the thread `i` is woken if any waits. -/
def wakeOne (waits : π → Bool) (wake : π → π) (ts : List π) (i : ℕ) : Option (List π) :=
  if ts.countP waits = 0 then some ts
  else (ts[i]?.filter waits).map fun t => ts.set i (wake t)

theorem wakeOne_eq_some : wakeOne waits wake ts i = some us ↔
    (ts.countP waits = 0 ∧ us = ts)
      ∨ ∃ t, ts[i]? = some t ∧ waits t = true ∧ us = ts.set i (wake t) := by
  unfold wakeOne
  split_ifs with h
  · constructor
    · intro heq
      exact .inl ⟨h, (Option.some.inj heq).symm⟩
    · rintro (⟨-, rfl⟩ | ⟨t, ht, hw, -⟩)
      · rfl
      · exact absurd h (Nat.ne_of_gt (countP_pos_of_getElem? ht hw))
  · rw [Option.map_eq_some_iff]
    constructor
    · rintro ⟨t, ht, rfl⟩
      rw [Option.filter_eq_some_iff] at ht
      exact .inr ⟨t, ht.1, ht.2, rfl⟩
    · rintro (⟨h0, -⟩ | ⟨t, ht, hw, rfl⟩)
      · exact absurd h0 h
      · exact ⟨t, Option.filter_eq_some_iff.2 ⟨ht, hw⟩, rfl⟩

/-- There is a thread a signal can wake, or none waits. -/
theorem exists_wakeOne (waits : π → Bool) (wake : π → π) (ts : List π) :
    ∃ i us, wakeOne waits wake ts i = some us := by
  by_cases h : ts.countP waits = 0
  · exact ⟨0, ts, wakeOne_eq_some.2 (.inl ⟨h, rfl⟩)⟩
  · obtain ⟨t, ht, hw⟩ := List.countP_pos_iff.1 (Nat.pos_of_ne_zero h)
    obtain ⟨i, hi⟩ := List.mem_iff_getElem?.1 ht
    exact ⟨i, ts.set i (wake t), wakeOne_eq_some.2 (.inr ⟨t, hi, hw, rfl⟩)⟩

/-- A signal adds what it adds to the weight of a waiting thread. -/
theorem sum_map_wakeOne_le {weight : π → ℕ} {c : ℕ} (h : wakeOne waits wake ts i = some us)
    (hc : ∀ t, waits t = true → weight (wake t) ≤ weight t + c) :
    (us.map weight).sum ≤ (ts.map weight).sum + c := by
  rcases wakeOne_eq_some.1 h with ⟨-, rfl⟩ | ⟨t, ht, hw, rfl⟩
  · exact Nat.le_add_right _ _
  · have := sum_map_set ht weight (wake t)
    have := hc t hw
    omega

/-- A signal leaves the count of what waiting and woken threads have in common. -/
theorem countP_wakeOne (h : wakeOne waits wake ts i = some us)
    (hf : ∀ t, waits t = true → f (wake t) = f t) : us.countP f = ts.countP f := by
  rcases wakeOne_eq_some.1 h with ⟨-, rfl⟩ | ⟨t, ht, hw, rfl⟩
  · rfl
  · have := countP_set ht f (wake t)
    rw [hf t hw] at this
    omega

end Lib
