import Mathlib.Data.List.Basic
import Mathlib.Logic.Function.Basic

/-!
# Keys that are given out again

A table holds an owner under each key in use, and a key whose owner has left is given out again.
A slip notes an owner by its key, to be looked up later. The slips are `Honest` while no slip leads
to another owner than the one it was made out for: to him, or to nobody. New slips, the departure of
owners and the loss of slips keep them honest, and so does a new owner whose key is on no slip.
-/

namespace Lib

variable {κ ο : Type*}

def Honest (table : κ → Option ο) (slips : List (κ × ο)) : Prop :=
  ∀ s ∈ slips, ∀ o, table s.1 = some o → o = s.2

variable {table table' : κ → Option ο} {slips slips' : List (κ × ο)} {k : κ} {o : ο}

theorem honest_nil (table : κ → Option ο) : Honest table [] := by
  intro s hs
  cases hs

theorem Honest.lose (h : Honest table slips) (hsub : ∀ s ∈ slips', s ∈ slips) :
    Honest table slips' := fun s hs => h s (hsub s hs)

theorem Honest.shrink (h : Honest table slips)
    (hle : ∀ k o, table' k = some o → table k = some o) : Honest table' slips :=
  fun s hs o ho => h s hs o (hle s.1 o ho)

theorem Honest.issue (h : Honest table slips) (hk : ∀ o', table k = some o' → o' = o) :
    Honest table ((k, o) :: slips) := by
  intro s hs o' ho
  rcases List.mem_cons.1 hs with rfl | hs
  · exact hk o' ho
  · exact h s hs o' ho

theorem Honest.insert [DecidableEq κ] (h : Honest table slips) (hk : ∀ s ∈ slips, s.1 ≠ k) (o : ο) :
    Honest (Function.update table k (some o)) slips := by
  intro s hs o' ho
  rw [Function.update_of_ne (hk s hs)] at ho
  exact h s hs o' ho

/-- What a slip leads to: its owner, or nobody. -/
theorem Honest.lookup (h : Honest table slips) (hs : (k, o) ∈ slips) :
    table k = some o ∨ table k = none := by
  rcases hk : table k with _ | o'
  · exact .inr rfl
  · exact .inl (congrArg some (h _ hs o' hk))

end Lib
