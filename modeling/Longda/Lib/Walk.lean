import Mathlib.Data.List.Basic

/-!
# Loops that can be left

`walk` takes the elements of a list in order, with the number of those before, until one of them
leaves the loop. Where an obstacle is known for each element, given the elements before it, the loop
is left at the first obstacle (`walk_spec`).
-/

namespace Lib

/-- How a turn of a loop ends. -/
inductive Turn (ε σ : Type*) where
  | next (s : σ)
  | exit (e : ε) (s : σ)

variable {α ε σ : Type*}

def walk (body : ℕ → α → σ → Turn ε σ) : ℕ → List α → σ → Turn ε σ
  | _, [], s => .next s
  | n, x :: xs, s =>
    match body n x s with
    | .next s => walk body (n + 1) xs s
    | .exit e s => .exit e s

/-- The first obstacle among the elements, and the elements before. -/
def firstObstacle (obstacle : List α → α → Option ε) (done : List α) :
    List α → Option (List α × ε)
  | [] => none
  | x :: xs =>
    match obstacle done x with
    | none => firstObstacle obstacle (done ++ [x]) xs
    | some e => some (done, e)

variable {obstacle : List α → α → Option ε} {done xs ys : List α}

theorem firstObstacle_append : firstObstacle obstacle done (xs ++ ys)
    = (firstObstacle obstacle done xs).or (firstObstacle obstacle (done ++ xs) ys) := by
  induction xs generalizing done with
  | nil => rw [List.append_nil]; rfl
  | cons x xs ih =>
    rw [List.cons_append, firstObstacle, firstObstacle]
    rcases obstacle done x with _ | e
    · dsimp only
      rw [ih, List.append_assoc]
      rfl
    · rfl

theorem firstObstacle_eq_none_iff : firstObstacle obstacle done xs = none ↔
    ∀ pre x post, xs = pre ++ x :: post → obstacle (done ++ pre) x = none := by
  induction xs generalizing done with
  | nil => simp [firstObstacle]
  | cons x xs ih =>
    rw [firstObstacle]
    constructor
    · intro h pre y post hxs
      rcases hx : obstacle done x with _ | e
      · rw [hx] at h
        rcases pre with _ | ⟨z, pre⟩
        · obtain ⟨rfl, rfl⟩ := List.cons.inj hxs
          rw [List.append_nil]
          exact hx
        · obtain ⟨rfl, rfl⟩ := List.cons.inj hxs
          have := ih.1 h pre y post rfl
          rwa [List.append_assoc] at this
      · rw [hx] at h
        cases h
    · intro h
      have hx := h [] x xs rfl
      rw [List.append_nil] at hx
      rw [hx]
      refine ih.2 fun pre y post hxs => ?_
      rw [List.append_assoc]
      exact h (x :: pre) y post (by rw [hxs]; rfl)

/-- Where the elements before do not matter. -/
theorem firstObstacle_eq_none_iff_forall {obstacle : α → Option ε} :
    firstObstacle (fun _ => obstacle) done xs = none ↔ ∀ x ∈ xs, obstacle x = none := by
  rw [firstObstacle_eq_none_iff]
  constructor
  · intro h x hx
    obtain ⟨pre, post, hxs⟩ := List.append_of_mem hx
    exact h pre x post hxs
  · intro h pre x post hxs
    exact h x (by rw [hxs]; simp)

/-- With `I` kept by the turns that meet no obstacle, the loop ends with `I`, or it is left at the
first obstacle with what that one makes of `I`. -/
theorem walk_spec (body : ℕ → α → σ → Turn ε σ) (obstacle : List α → α → Option ε)
    (I : List α → σ → Prop) (E : List α → ε → σ → Prop) (done xs : List α)
    (hnext : ∀ done x s, x ∈ xs → I done s → obstacle done x = none →
      ∃ t, body done.length x s = .next t ∧ I (done ++ [x]) t)
    (hexit : ∀ done x e s, x ∈ xs → I done s → obstacle done x = some e →
      ∃ t, body done.length x s = .exit e t ∧ E done e t)
    {s : σ} (hs : I done s) :
    match firstObstacle obstacle done xs with
    | none => ∃ t, walk body done.length xs s = .next t ∧ I (done ++ xs) t
    | some (pre, e) => ∃ t, walk body done.length xs s = .exit e t ∧ E pre e t := by
  induction xs generalizing done s with
  | nil => exact ⟨s, rfl, by rwa [List.append_nil]⟩
  | cons x xs ih =>
    rw [firstObstacle]
    rcases hx : obstacle done x with _ | e
    · obtain ⟨t, ht, hI⟩ := hnext done x s List.mem_cons_self hs hx
      have ih := ih (done ++ [x]) (fun done y s hy => hnext done y s (List.mem_cons_of_mem x hy))
        (fun done y e s hy => hexit done y e s (List.mem_cons_of_mem x hy)) hI
      rw [List.length_append, List.length_singleton, List.append_assoc, List.singleton_append] at ih
      rw [walk, ht]
      exact ih
    · obtain ⟨t, ht, hE⟩ := hexit done x e s List.mem_cons_self hs hx
      refine ⟨t, ?_, hE⟩
      rw [walk, ht]

end Lib
