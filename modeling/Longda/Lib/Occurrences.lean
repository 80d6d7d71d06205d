import Mathlib.Data.List.Infix
import Mathlib.Data.Nat.Notation

/-!
# Occurrences in a list

`firstFrom` is the first place at or behind another where a list occurs. `replaceAll` goes through a
list once from the left: where `old` occurs it puts `new` and goes on behind the occurrence. From
one place on, that is what stands before the first occurrence, `new`, and the same from behind the
occurrence on (`replaceAll_of_first`).
-/

namespace Lib

variable {α : Type*} [DecidableEq α]

/-- The first place from `place` on where `old` occurs. -/
def firstFrom (old s : List α) (place : ℕ) : Option ℕ :=
  (List.range' place (s.length + 1 - place)).find? fun i => old.isPrefixOf (s.drop i)

/-- The scan, with the number of elements of an occurrence that are still to be passed. -/
def replaceScan (old new : List α) : ℕ → List α → List α
  | _, [] => []
  | skip + 1, _ :: s => replaceScan old new skip s
  | 0, c :: s =>
    if old.isPrefixOf (c :: s) then new ++ replaceScan old new (old.length - 1) s
    else c :: replaceScan old new 0 s

/-- The list with every occurrence of `old` replaced, from the left and without overlaps. -/
def replaceAll (old new s : List α) : List α := replaceScan old new 0 s

variable {old new s : List α} {place i : ℕ}

theorem firstFrom_eq_some (hold : old ≠ []) : firstFrom old s place = some i ↔
    old <+: s.drop i ∧ place ≤ i ∧ ∀ j, place ≤ j → j < i → ¬ old <+: s.drop j := by
  unfold firstFrom
  rw [List.find?_range'_eq_some, List.mem_range'_1]
  simp only [List.isPrefixOf_iff_prefix, Bool.not_eq_true', ← Bool.not_eq_true]
  constructor
  · rintro ⟨hi, ⟨hplace, -⟩, hfirst⟩
    exact ⟨hi, hplace, hfirst⟩
  · rintro ⟨hi, hplace, hfirst⟩
    have hlen := hi.length_le
    have hpos := List.length_pos_iff.2 hold
    rw [List.length_drop] at hlen
    exact ⟨hi, ⟨hplace, by omega⟩, hfirst⟩

theorem firstFrom_eq_none (hold : old ≠ []) : firstFrom old s place = none ↔
    ∀ j, place ≤ j → ¬ old <+: s.drop j := by
  unfold firstFrom
  rw [List.find?_range'_eq_none]
  simp only [Bool.not_eq_true', ← Bool.not_eq_true, List.isPrefixOf_iff_prefix]
  constructor
  · intro h j hj hprefix
    have hlen := hprefix.length_le
    have hpos := List.length_pos_iff.2 hold
    rw [List.length_drop] at hlen
    exact h j hj (by omega) hprefix
  · exact fun h j hj _ => h j hj

theorem replaceScan_skip (skip : ℕ) (s : List α) :
    replaceScan old new skip s = replaceAll old new (s.drop skip) := by
  induction skip generalizing s with
  | zero => rfl
  | succ skip ih =>
    rcases s with _ | ⟨c, s⟩
    · simp [replaceAll, replaceScan]
    · rw [replaceScan, ih, List.drop_succ_cons]

/-- Nothing is replaced where nothing occurs. -/
theorem replaceAll_of_none (h : ∀ j, ¬ old <+: s.drop j) : replaceAll old new s = s := by
  induction s with
  | nil => rfl
  | cons c s ih =>
    have hc : ¬ old.isPrefixOf (c :: s) = true := by
      rw [List.isPrefixOf_iff_prefix]
      exact h 0
    unfold replaceAll at ih ⊢
    rw [replaceScan, if_neg hc, ih fun j => h (j + 1)]

/-- What stands before the first occurrence stays, and the scan goes on behind it. -/
theorem replaceAll_of_first (hold : old ≠ []) (hi : old <+: s.drop i)
    (hfirst : ∀ j < i, ¬ old <+: s.drop j) :
    replaceAll old new s = s.take i ++ (new ++ replaceAll old new (s.drop (i + old.length))) := by
  induction i generalizing s with
  | zero =>
    have hpos := List.length_pos_iff.2 hold
    rcases s with _ | ⟨c, s⟩
    · exact absurd (List.prefix_nil.1 hi) hold
    · have hc : old.isPrefixOf (c :: s) = true := List.isPrefixOf_iff_prefix.2 hi
      obtain ⟨k, hk⟩ : ∃ k, old.length = k + 1 := ⟨old.length - 1, by omega⟩
      rw [replaceAll, replaceScan, if_pos hc, replaceScan_skip, hk, Nat.zero_add,
        List.drop_succ_cons, Nat.add_sub_cancel]
      rfl
  | succ i ih =>
    rcases s with _ | ⟨c, s⟩
    · rw [List.drop_nil] at hi
      exact absurd (List.prefix_nil.1 hi) hold
    · have hc : ¬ old.isPrefixOf (c :: s) = true := by
        rw [List.isPrefixOf_iff_prefix]
        exact hfirst 0 (Nat.succ_pos i)
      have hrest := ih (s := s) hi fun j hj => hfirst (j + 1) (Nat.succ_lt_succ hj)
      have hplace : i + 1 + old.length = i + old.length + 1 := by omega
      rw [replaceAll, replaceScan, if_neg hc, hplace, List.drop_succ_cons, List.take_succ_cons,
        List.cons_append]
      exact congrArg _ hrest

/-- An occurrence replaced by itself. -/
theorem replaceAll_self (hold : old ≠ []) (s : List α) : replaceAll old old s = s := by
  induction hn : s.length using Nat.strong_induction_on generalizing s with
  | _ n ih =>
    rcases hfirst : firstFrom old s 0 with _ | i
    · exact replaceAll_of_none fun j => (firstFrom_eq_none hold).1 hfirst j (Nat.zero_le j)
    · obtain ⟨hi, -, hbefore⟩ := (firstFrom_eq_some hold).1 hfirst
      have hpos := List.length_pos_iff.2 hold
      have hlen := hi.length_le
      rw [List.length_drop] at hlen
      rw [replaceAll_of_first hold hi fun j => hbefore j (Nat.zero_le j),
        ih _ (by rw [List.length_drop]; omega) _ rfl, ← List.drop_drop]
      obtain ⟨rest, hrest⟩ := hi
      rw [← hrest, List.drop_left, hrest, List.take_append_drop]

end Lib
