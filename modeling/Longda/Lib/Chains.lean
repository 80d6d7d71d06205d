import Longda.Lib.OrderedMap

/-!
# Queues under keys

A map holds a queue under each key, and none that is empty. What is pushed goes to the end of the
queue of its key, what is popped comes from the front, and everything else stays where it is.
-/

namespace Lib

variable {κ α : Type*} [LinearOrder κ]

/-- The queue under a key. -/
def chain (m : OrderedMap κ (List α)) (k : κ) : List α := (m.find? k).getD []

def push (m : OrderedMap κ (List α)) (k : κ) (x : α) : OrderedMap κ (List α) :=
  m.set k (chain m k ++ [x])

/-- What is left of the queue is put back, if anything is. -/
def putBack (m : OrderedMap κ (List α)) (k : κ) (l : List α) : OrderedMap κ (List α) :=
  if l.length = 0 then m.erase k else m.set k l

/-- All that is queued. -/
def queued (m : OrderedMap κ (List α)) : List α := m.entries.flatMap (·.2)

def NoEmpty (m : OrderedMap κ (List α)) : Prop := ∀ k l, m.find? k = some l → l ≠ []

variable {m : OrderedMap κ (List α)} {k k' : κ} {x : α} {l : List α}

theorem chain_of_find? (h : m.find? k = some l) : chain m k = l := by
  unfold chain
  rw [h]
  rfl

theorem chain_of_none (h : m.find? k = none) : chain m k = [] := by
  unfold chain
  rw [h]
  rfl

theorem chain_push : chain (push m k x) k' = if k' = k then chain m k ++ [x] else chain m k' := by
  unfold push
  rw [chain, OrderedMap.find?_set]
  split_ifs <;> rfl

theorem chain_putBack : chain (putBack m k l) k' = if k' = k then l else chain m k' := by
  unfold putBack
  split_ifs with hl hk hk
  · rw [chain, OrderedMap.find?_erase, if_pos hk, List.length_eq_zero_iff.1 hl]
    rfl
  · rw [chain, OrderedMap.find?_erase, if_neg hk]
    rfl
  · rw [chain, OrderedMap.find?_set, if_pos hk]
    rfl
  · rw [chain, OrderedMap.find?_set, if_neg hk]
    rfl

/-- What is queued is the queue of one key and the rest. -/
theorem queued_perm (m : OrderedMap κ (List α)) (k : κ) :
    (queued m).Perm (chain m k ++ queued (m.erase k)) := by
  rcases h : m.find? k with _ | l
  · rw [OrderedMap.erase_of_none h, chain_of_none h, List.nil_append]
  · rw [chain_of_find? h]
    exact (OrderedMap.perm_erase h).flatMap_right _

theorem queued_set : (queued (m.set k l)).Perm (l ++ queued (m.erase k)) :=
  (m.perm_set k l).flatMap_right _

theorem queued_push : (queued (push m k x)).Perm (x :: queued m) := by
  have hset : (queued (push m k x)).Perm (chain m k ++ [x] ++ queued (m.erase k)) := queued_set
  rw [List.append_assoc, List.singleton_append] at hset
  exact (hset.trans List.perm_middle).trans ((queued_perm m k).symm.cons x)

theorem queued_putBack : (queued (putBack m k l)).Perm (l ++ queued (m.erase k)) := by
  unfold putBack
  split_ifs with hl
  · rw [List.length_eq_zero_iff.1 hl, List.nil_append]
  · exact queued_set

/-- What is popped is no longer queued, and nothing else is lost. -/
theorem queued_pop (h : chain m k = x :: l) : (queued m).Perm (x :: queued (putBack m k l)) := by
  have hm := queued_perm m k
  rw [h] at hm
  exact hm.trans (queued_putBack.symm.cons x)

theorem noEmpty_empty : NoEmpty (.empty : OrderedMap κ (List α)) := by
  intro k l h
  cases h

theorem NoEmpty.set (h : NoEmpty m) (hl : l ≠ []) : NoEmpty (m.set k l) := by
  intro k' l' hk'
  rw [OrderedMap.find?_set] at hk'
  split_ifs at hk'
  · exact Option.some.inj hk' ▸ hl
  · exact h k' l' hk'

theorem NoEmpty.push (h : NoEmpty m) : NoEmpty (push m k x) := h.set (by simp)

theorem NoEmpty.putBack (h : NoEmpty m) : NoEmpty (putBack m k l) := by
  unfold Lib.putBack
  split_ifs with hl
  · intro k' l' hk'
    rw [OrderedMap.find?_erase] at hk'
    split_ifs at hk'
    exact h k' l' hk'
  · exact h.set (by simpa using hl)

end Lib
