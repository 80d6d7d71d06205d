import Mathlib.Algebra.BigOperators.Group.List.Basic
import Mathlib.Algebra.GroupWithZero.Nat
import Mathlib.Algebra.Order.Group.Nat
import Mathlib.Order.Defs.LinearOrder

/-!
# Samples and what is kept of them

`Extremes` says which samples are the least and the greatest of a list. A sum in fewer than `M`
values is restarted by a sample that would take it there, with that sample alone; `sinceRestart`
lists the samples it is of, newest first. It is of all of them exactly if it is of as many as there
have been (`sinceRestart_length_eq_iff`).
-/

namespace Lib

section Extremes

variable {α : Type*} [LinearOrder α]

structure Extremes (xs : List α) (lo hi : α) : Prop where
  lo_mem : lo ∈ xs
  hi_mem : hi ∈ xs
  lo_le : ∀ x ∈ xs, lo ≤ x
  le_hi : ∀ x ∈ xs, x ≤ hi

theorem extremes_singleton (x : α) : Extremes [x] x x := by
  refine ⟨?_, ?_, ?_, ?_⟩ <;> simp

theorem Extremes.lo_le_hi {xs : List α} {lo hi : α} (h : Extremes xs lo hi) : lo ≤ hi :=
  h.lo_le hi h.hi_mem

theorem Extremes.cons {xs : List α} {lo hi : α} (h : Extremes xs lo hi) (x : α) :
    Extremes (x :: xs) (if x < lo then x else lo) (if hi < x then x else hi) where
  lo_mem := by split_ifs <;> simp [h.lo_mem]
  hi_mem := by split_ifs <;> simp [h.hi_mem]
  lo_le y hy := by
    rcases List.mem_cons.1 hy with rfl | hy
    · split_ifs with hx
      · exact le_rfl
      · exact not_lt.1 hx
    · have := h.lo_le y hy
      split_ifs with hx
      · exact hx.le.trans this
      · exact this
  le_hi y hy := by
    rcases List.mem_cons.1 hy with rfl | hy
    · split_ifs with hx
      · exact le_rfl
      · exact not_lt.1 hx
    · have := h.le_hi y hy
      split_ifs with hx
      · exact this.trans hx.le
      · exact this

end Extremes

/-- The samples, newest first, that are in a sum kept below `M`. -/
def sinceRestart (M : ℕ) : List ℕ → List ℕ
  | [] => []
  | x :: xs => if (sinceRestart M xs).sum + x < M then x :: sinceRestart M xs else [x]

variable {M : ℕ}

theorem sinceRestart_of_sum_lt : ∀ {xs : List ℕ}, xs.sum < M → sinceRestart M xs = xs
  | [], _ => rfl
  | x :: xs, h => by
    rw [List.sum_cons] at h
    unfold sinceRestart
    rw [sinceRestart_of_sum_lt (by omega), if_pos (by omega)]

theorem sinceRestart_length_lt (hM : 0 < M) : ∀ {xs : List ℕ}, (∀ x ∈ xs, x < M) → M ≤ xs.sum →
    (sinceRestart M xs).length < xs.length
  | [], _, h => by simp at h; omega
  | x :: xs, hlt, h => by
    rw [List.sum_cons] at h
    have hx := hlt x (by simp)
    unfold sinceRestart
    split_ifs with hs
    · by_cases hxs : xs.sum < M
      · rw [sinceRestart_of_sum_lt hxs] at hs
        omega
      · simpa using sinceRestart_length_lt hM (fun y hy => hlt y (by simp [hy])) (not_lt.1 hxs)
    · rcases xs with _ | ⟨y, ys⟩
      · simp only [List.sum_nil] at h
        omega
      · simp

/-- The sum has been restarted exactly if it is of fewer samples than there have been. -/
theorem sinceRestart_length_eq_iff (hM : 0 < M) {xs : List ℕ} (h : ∀ x ∈ xs, x < M) :
    (sinceRestart M xs).length = xs.length ↔ sinceRestart M xs = xs := by
  constructor
  · intro he
    by_cases hs : xs.sum < M
    · exact sinceRestart_of_sum_lt hs
    · exact absurd he (sinceRestart_length_lt hM h (not_lt.1 hs)).ne
  · intro he
    rw [he]

theorem sinceRestart_length_le (xs : List ℕ) : (sinceRestart M xs).length ≤ xs.length := by
  induction xs with
  | nil => exact le_rfl
  | cons x xs ih =>
    unfold sinceRestart
    split_ifs
    · simpa using ih
    · simp

end Lib
