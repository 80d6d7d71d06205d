import Mathlib.Data.List.Basic
import Mathlib.Data.Nat.Notation
import Mathlib.Logic.Function.Basic

/-!
# Slots

What the slots `0, 1, …` hold, and what becomes of it when it is moved up slot by slot. `present`
lists what the first slots hold. A move into a free slot leaves that list as it is
(`present_moveUp`), and so does a row of moves that goes from the top down, wherever it stops
(`Moved.present_eq`).
-/

namespace Lib

variable {α : Type*} {f g : ℕ → Option α} {i n : ℕ}

/-- What the first `n` slots hold, in their order. -/
def present (n : ℕ) (f : ℕ → Option α) : List α := (List.range n).filterMap f

/-- What slot `i` holds goes into the next one. -/
def moveUp (i : ℕ) (f : ℕ → Option α) : ℕ → Option α :=
  Function.update (Function.update f i none) (i + 1) (f i)

/-- From `f` slots were moved up from slot `i` down, to some slot on the way. -/
inductive Moved : ℕ → (ℕ → Option α) → (ℕ → Option α) → Prop where
  | stop (i : ℕ) (f : ℕ → Option α) : Moved i f f
  | move {i : ℕ} {f g : ℕ → Option α} : Moved i (moveUp (i + 1) f) g → Moved (i + 1) f g

theorem present_add (m n : ℕ) (f : ℕ → Option α) :
    present (m + n) f = present m f ++ present n fun j => f (m + j) := by
  unfold present
  rw [List.range_add, List.filterMap_append, List.filterMap_map]
  rfl

theorem present_succ (n : ℕ) (f : ℕ → Option α) :
    present (n + 1) f = present n f ++ (f n).toList := by
  rw [present_add]
  rfl

theorem present_zero_succ (n : ℕ) (f : ℕ → Option α) :
    present (n + 1) f = (f 0).toList ++ present n fun j => f (j + 1) := by
  rw [Nat.add_comm, present_add]
  have hup : (fun j => f (1 + j)) = fun j => f (j + 1) := funext fun j => by rw [Nat.add_comm]
  rw [hup]
  rfl

theorem present_congr (h : ∀ j < n, f j = g j) : present n f = present n g :=
  List.filterMap_congr fun j hj => h j (List.mem_range.1 hj)

theorem mem_present {a : α} : a ∈ present n f ↔ ∃ j < n, f j = some a := by
  simp [present]

theorem moveUp_of_ne {j : ℕ} (hj : j ≠ i) (hj' : j ≠ i + 1) : moveUp i f j = f j := by
  rw [moveUp, Function.update_of_ne hj', Function.update_of_ne hj]

@[simp] theorem moveUp_self : moveUp i f i = none := by
  rw [moveUp, Function.update_of_ne (Nat.succ_ne_self i).symm, Function.update_self]

@[simp] theorem moveUp_succ : moveUp i f (i + 1) = f i := Function.update_self ..

/-- A slot that is moved over keeps nothing of what it held. -/
theorem moveUp_erase : moveUp i (Function.update f (i + 1) none) = moveUp i f := by
  funext j
  by_cases hi : j = i
  · rw [hi, moveUp_self, moveUp_self]
  · by_cases hsucc : j = i + 1
    · rw [hsucc, moveUp_succ, moveUp_succ, Function.update_of_ne (Nat.succ_ne_self i).symm]
    · rw [moveUp_of_ne hi hsucc, moveUp_of_ne hi hsucc, Function.update_of_ne hsucc]

/-- A move into a free slot keeps what there is and its order. -/
theorem present_moveUp (hfree : f (i + 1) = none) (hi : i + 1 < n) :
    present n (moveUp i f) = present n f := by
  obtain ⟨k, rfl⟩ := Nat.exists_eq_add_of_le (show i + 1 + 1 ≤ n by omega)
  rw [present_add, present_add (i + 1 + 1), present_succ, present_succ (i + 1) f, present_succ,
    present_succ i f, moveUp_self, moveUp_succ, hfree]
  have hbelow : present i (moveUp i f) = present i f :=
    present_congr fun j hj => moveUp_of_ne (by omega) (by omega)
  have habove : (present k fun j => moveUp i f (i + 1 + 1 + j)) =
      present k fun j => f (i + 1 + 1 + j) :=
    present_congr fun j _ => moveUp_of_ne (by omega) (by omega)
  rw [hbelow, habove, Option.toList_none, List.append_nil, List.append_nil]

/-- Moves into a free slot and then into the ones that get free keep what there is and its order,
however many there are. -/
theorem Moved.present_eq (h : Moved i f g) (hfree : f (i + 1) = none) (hi : i + 1 < n) :
    present n g = present n f := by
  induction h with
  | stop i f => rfl
  | @move i f g h ih => rw [ih moveUp_self (by omega), present_moveUp hfree hi]

/-- No move goes below the first slot. -/
theorem Moved.zero_eq (h : Moved i f g) : g 0 = f 0 := by
  induction h with
  | stop i f => rfl
  | @move i f g h ih => rw [ih, moveUp_of_ne (by omega) (by omega)]

end Lib
