import Mathlib.Data.List.Sort
import Mathlib.Order.Defs.LinearOrder

/-!
# The things with the smallest keys

While things are seen one by one, at most `k` of them are kept: all while there is room, and then
the new one in the place of the last only if its key is smaller. What is kept are then always those
with the smallest keys of all that has been seen.
-/

namespace Lib

variable {α κ : Type*} [LinearOrder κ] {key : α → κ} {k : ℕ} {seen seen' kept kept' l : List α}
  {a b : α}

/-- Up to `k` things are kept, all others have greater keys, and there are others only if `k` are
kept. -/
structure Smallest (key : α → κ) (k : ℕ) (seen kept : List α) : Prop where
  length_le : kept.length ≤ k
  others : ∃ rest, seen.Perm (kept ++ rest) ∧ (rest = [] ∨ kept.length = k)
    ∧ ∀ a ∈ kept, ∀ b ∈ rest, key a < key b

namespace Smallest

theorem nil : Smallest key k [] [] := ⟨Nat.zero_le k, [], .nil, .inl rfl, by simp⟩

theorem perm_seen (h : Smallest key k seen kept) (hp : seen.Perm seen') :
    Smallest key k seen' kept := by
  obtain ⟨hle, rest, hperm, hfull, hlt⟩ := h
  exact ⟨hle, rest, hp.symm.trans hperm, hfull, hlt⟩

/-- There is room for the new one. -/
theorem take (h : Smallest key k seen kept) (hroom : kept.length < k)
    (hp : kept'.Perm (a :: kept)) : Smallest key k (a :: seen) kept' := by
  obtain ⟨-, rest, hperm, hfull, -⟩ := h
  obtain rfl : rest = [] := hfull.resolve_right (Nat.ne_of_lt hroom)
  rw [List.append_nil] at hperm
  refine ⟨by rw [hp.length_eq]; exact hroom, [], ?_, .inl rfl, by simp⟩
  rw [List.append_nil]
  exact (hperm.cons a).trans hp.symm

/-- The new one has the greatest key. -/
theorem pass (h : Smallest key k seen kept) (hfull : kept.length = k)
    (ha : ∀ b ∈ kept, key b < key a) : Smallest key k (a :: seen) kept := by
  obtain ⟨hle, rest, hperm, -, hlt⟩ := h
  refine ⟨hle, a :: rest, (hperm.cons a).trans List.perm_middle.symm, .inr hfull, ?_⟩
  intro b hb c hc
  rcases List.mem_cons.1 hc with rfl | hc
  · exact ha b hb
  · exact hlt b hb c hc

/-- The new one comes in the place of the one with the greatest key. -/
theorem replace (h : Smallest key k seen kept) (hfull : kept.length = k) (hp : kept.Perm (b :: l))
    (hb : ∀ c ∈ l, key c < key b) (hab : key a < key b) (hp' : kept'.Perm (a :: l)) :
    Smallest key k (a :: seen) kept' := by
  obtain ⟨hle, rest, hperm, -, hlt⟩ := h
  have hlen : kept'.length = kept.length := by rw [hp'.length_eq, hp.length_eq]; rfl
  refine ⟨hlen.trans_le hle, b :: rest, ?_, .inr (hlen.trans hfull), ?_⟩
  · have hrest : (kept ++ rest).Perm (b :: (l ++ rest)) := hp.append_right rest
    have hkept : (a :: (l ++ b :: rest)).Perm (kept' ++ b :: rest) := (hp'.append_right _).symm
    exact (((hperm.trans hrest).cons a).trans (List.perm_middle.symm.cons a)).trans hkept
  · intro c hc d hd
    have hcb : key c < key b := by
      rcases List.mem_cons.1 (hp'.mem_iff.1 hc) with rfl | hc
      · exact hab
      · exact hb c hc
    rcases List.mem_cons.1 hd with rfl | hd
    · exact hcb
    · exact hcb.trans (hlt b (hp.mem_iff.2 List.mem_cons_self) d hd)

theorem length_eq (h : Smallest key k seen kept) : kept.length = min k seen.length := by
  obtain ⟨hle, rest, hperm, hfull, -⟩ := h
  rw [hperm.length_eq, List.length_append]
  rcases hfull with rfl | hfull
  · simp [hle]
  · omega

theorem subset (h : Smallest key k seen kept) (ha : a ∈ kept) : a ∈ seen := by
  obtain ⟨-, rest, hperm, -, -⟩ := h
  exact hperm.mem_iff.2 (List.mem_append_left _ ha)

theorem lt (h : Smallest key k seen kept) (ha : a ∈ kept) (hb : b ∈ seen) (hnot : b ∉ kept) :
    key a < key b := by
  obtain ⟨-, rest, hperm, -, hlt⟩ := h
  exact hlt a ha b ((List.mem_append.1 (hperm.mem_iff.1 hb)).resolve_left hnot)

end Smallest

end Lib
