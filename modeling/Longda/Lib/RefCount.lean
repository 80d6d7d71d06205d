import Longda.Lib.OrderedMap

/-!
# Holders of a thing

In a table each entry holds one thing or none. How many entries hold a thing changes by the entry
that is changed, for what it held and for what it holds.
-/

namespace Lib

variable {κ ι : Type*} [LinearOrder κ] [DecidableEq ι]

/-- How many entries hold the thing. -/
def holders (m : OrderedMap κ (Option ι)) (i : ι) : ℕ := m.entries.countP (·.2 = some i)

/-- The key counts for the thing its entry holds. -/
def share (m : OrderedMap κ (Option ι)) (k : κ) (i : ι) : ℕ :=
  if m.find? k = some (some i) then 1 else 0

variable {m : OrderedMap κ (Option ι)} {k : κ} {i : ι} {w : Option ι}

theorem holders_empty : holders (OrderedMap.empty : OrderedMap κ (Option ι)) i = 0 := rfl

theorem holders_pos_iff : 0 < holders m i ↔ ∃ k, m.find? k = some (some i) := by
  unfold holders
  rw [List.countP_pos_iff]
  constructor
  · rintro ⟨e, he, hi⟩
    exact ⟨e.1, OrderedMap.mem_entries_iff.1 (by rwa [← of_decide_eq_true hi])⟩
  · rintro ⟨k, hk⟩
    exact ⟨_, OrderedMap.mem_entries_iff.2 hk, by simp⟩

theorem holders_erase (m : OrderedMap κ (Option ι)) (k : κ) (i : ι) :
    holders (m.erase k) i + share m k i = holders m i := by
  unfold share
  rcases h : m.find? k with _ | v
  · rw [OrderedMap.erase_of_none h, if_neg (by simp), Nat.add_zero]
  · unfold holders
    rw [(OrderedMap.perm_erase h).countP_eq, List.countP_cons]
    simp

theorem holders_set (m : OrderedMap κ (Option ι)) (k : κ) (w : Option ι) (i : ι) :
    holders (m.set k w) i + share m k i = holders m i + if w = some i then 1 else 0 := by
  have herase := holders_erase m k i
  have hset : holders (m.set k w) i = holders (m.erase k) i + if w = some i then 1 else 0 := by
    unfold holders
    rw [(m.perm_set k w).countP_eq, List.countP_cons]
    simp
  omega

end Lib
