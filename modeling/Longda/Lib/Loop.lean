import Longda.Lib.Ends
import Mathlib.Data.Nat.Notation

/-!
# Loops that end

A loop is run with a number of turns to spare; a loop that runs out of them has no value. `Settles`
says that with turns enough a computation ends as `Ends` says, however many more there are. A loop
settles where its body leaves it, or goes on to a state in which it does (`settles_repeatM`).
-/

namespace Lib

variable {ε σ α β : Type}

/-- `do … while` with a body that gives the value of the loop where the loop is left. -/
def repeatM (body : EStateM ε σ (Option α)) : ℕ → EStateM ε σ (Option α)
  | 0 => pure none
  | n + 1 => do
    match ← body with
    | some a => pure (some a)
    | none => repeatM body n

def Settles (x : ℕ → EStateM ε σ α) (s : σ) (Q : α → σ → Prop) (R : ε → σ → Prop) : Prop :=
  ∃ n, ∀ m, n ≤ m → Ends (x m) s Q R

variable {x : ℕ → EStateM ε σ α} {s : σ} {Q Q' : α → σ → Prop} {R R' : ε → σ → Prop}

theorem Settles.mono (h : Settles x s Q R) (hQ : ∀ a t, Q a t → Q' a t)
    (hR : ∀ e t, R e t → R' e t) : Settles x s Q' R' := by
  obtain ⟨n, hn⟩ := h
  exact ⟨n, fun m hm => (hn m hm).mono hQ hR⟩

/-- What follows a computation that settles is entered in the states it settles in. -/
theorem Settles.bind {f : ℕ → α → EStateM ε σ β} {P : β → σ → Prop}
    (h : Settles x s (fun a t => ∀ m, Ends (f m a) t P R) R) :
    Settles (fun m => x m >>= f m) s P R := by
  obtain ⟨n, hn⟩ := h
  refine ⟨n, fun m hm => ?_⟩
  rw [ends_bind]
  exact (hn m hm).mono_ok fun a t ha => ha m

/-- A computation settles in one way. -/
theorem Settles.absurd (h : Settles x s Q R) (h' : Settles x s Q' R') (hQ : ∀ a t, Q a t → ¬ Q' a t)
    (hR : ∀ e t, R e t → ¬ R' e t) : False := by
  obtain ⟨n, hn⟩ := h
  obtain ⟨k, hk⟩ := h'
  exact (hn (max n k) (Nat.le_max_left n k)).absurd (hk (max n k) (Nat.le_max_right n k)) hQ hR

/-- The loop settles if its body leaves it well or leads to where it settles. -/
theorem settles_repeatM {body : EStateM ε σ (Option α)} {Q : Option α → σ → Prop}
    (h : Ends body s (fun r t => r.elim (Settles (repeatM body) t Q R) fun a => Q (some a) t) R) :
    Settles (repeatM body) s Q R := by
  have step : ∀ n, Ends (repeatM body (n + 1)) s Q R ↔
      Ends body s (fun r t => r.elim (Ends (repeatM body n) t Q R) fun a => Q (some a) t) R := by
    intro n
    simp only [repeatM, ends_bind]
    refine ⟨fun hb => hb.mono_ok ?_, fun hb => hb.mono_ok ?_⟩ <;>
    · rintro (_ | a) t ht <;> exact ht
  have spare : ∀ {P : ℕ → Prop} n, (∀ m, n ≤ m → P (m + 1)) → ∃ n, ∀ m, n ≤ m → P m := by
    refine fun n hP => ⟨n + 1, fun m hm => ?_⟩
    obtain ⟨m, rfl⟩ : ∃ k, m = k + 1 := ⟨m - 1, by omega⟩
    exact hP m (by omega)
  unfold Ends at h
  cases hx : body s with
  | ok r t =>
    simp only [hx] at h
    cases r with
    | some a =>
      refine spare 0 fun m _ => ?_
      rw [step, Ends, hx]
      exact h
    | none =>
      obtain ⟨n, hn⟩ := h
      refine spare n fun m hm => ?_
      rw [step, Ends, hx]
      exact hn m hm
  | error e t =>
    simp only [hx] at h
    refine spare 0 fun m _ => ?_
    rw [step, Ends, hx]
    exact h

end Lib
