import Mathlib.Tactic.SplitIfs

/-!
# How a computation ends

`Ends x s Q R` says that the computation `x`, started in `s`, ends with a value and a state that
satisfy `Q`, or with an error and a state that satisfy `R`. Each way to build a computation has its
rule, an equivalence, so that a program is turned into a statement about the states it goes
through by rewriting.
-/

namespace Lib

variable {ε σ α β : Type}

def Ends (x : EStateM ε σ α) (s : σ) (Q : α → σ → Prop) (R : ε → σ → Prop) : Prop :=
  match x s with
  | .ok a t => Q a t
  | .error e t => R e t

variable {x : EStateM ε σ α} {s t : σ} {Q Q' : α → σ → Prop} {R R' : ε → σ → Prop}

@[simp] theorem ends_pure (a : α) : Ends (pure a : EStateM ε σ α) s Q R ↔ Q a s := Iff.rfl

@[simp] theorem ends_throw (e : ε) : Ends (throw e : EStateM ε σ α) s Q R ↔ R e s := Iff.rfl

@[simp] theorem ends_get {Q : σ → σ → Prop} : Ends (get : EStateM ε σ σ) s Q R ↔ Q s s := Iff.rfl

@[simp] theorem ends_set {Q : PUnit → σ → Prop} :
    Ends (set t : EStateM ε σ PUnit) s Q R ↔ Q ⟨⟩ t := Iff.rfl

@[simp] theorem ends_modify {f : σ → σ} {Q : PUnit → σ → Prop} :
    Ends (modify f : EStateM ε σ PUnit) s Q R ↔ Q ⟨⟩ (f s) := Iff.rfl

@[simp] theorem ends_bind {f : α → EStateM ε σ β} {Q : β → σ → Prop} :
    Ends (x >>= f) s Q R ↔ Ends x s (fun a t => Ends (f a) t Q R) R := by
  simp only [Ends, bind, EStateM.bind]
  cases x s <;> rfl

@[simp] theorem ends_map {f : α → β} {Q : β → σ → Prop} :
    Ends (f <$> x) s Q R ↔ Ends x s (fun a t => Q (f a) t) R := by
  simp only [Ends, Functor.map, EStateM.map]
  cases x s <;> rfl

@[simp] theorem ends_ite {c : Prop} [Decidable c] {y : EStateM ε σ α} :
    Ends (if c then x else y) s Q R ↔ if c then Ends x s Q R else Ends y s Q R := by
  split_ifs <;> rfl

theorem Ends.mono (h : Ends x s Q R) (hQ : ∀ a t, Q a t → Q' a t) (hR : ∀ e t, R e t → R' e t) :
    Ends x s Q' R' := by
  unfold Ends at *
  cases hx : x s with
  | ok a t => exact hQ a t (by simpa only [hx] using h)
  | error e t => exact hR e t (by simpa only [hx] using h)

theorem Ends.mono_ok (h : Ends x s Q R) (hQ : ∀ a t, Q a t → Q' a t) : Ends x s Q' R :=
  h.mono hQ fun _ _ => id

theorem ends_true : Ends x s (fun _ _ => True) fun _ _ => True := by
  unfold Ends
  cases x s <;> trivial

theorem Ends.self (x : EStateM ε σ α) (s : σ) :
    Ends x s (fun a t => x s = .ok a t) fun e t => x s = .error e t := by
  unfold Ends
  cases x s <;> rfl

theorem Ends.ok {a : α} (h : Ends x s Q R) (hx : x s = .ok a t) : Q a t := by
  simpa only [Ends, hx] using h

theorem Ends.error {e : ε} (h : Ends x s Q R) (hx : x s = .error e t) : R e t := by
  simpa only [Ends, hx] using h

theorem ends_iff_ok {a : α} :
    Ends x s (fun b u => b = a ∧ u = t) (fun _ _ => False) ↔ x s = .ok a t := by
  unfold Ends
  cases x s <;> simp

/-- A computation satisfies what all its possible ends agree on. -/
theorem ends_iff_of {K : α → σ → Prop} {L : ε → σ → Prop} {P : Prop} (h : Ends x s K L)
    (hK : ∀ a t, K a t → (Q a t ↔ P)) (hL : ∀ e t, L e t → (R e t ↔ P)) :
    Ends x s Q R ↔ P := by
  unfold Ends at *
  cases hx : x s with
  | ok a t => exact hK a t (by simpa only [hx] using h)
  | error e t => exact hL e t (by simpa only [hx] using h)

theorem Ends.and (h : Ends x s Q R) (h' : Ends x s Q' R') :
    Ends x s (fun a t => Q a t ∧ Q' a t) fun e t => R e t ∧ R' e t := by
  unfold Ends at *
  cases hx : x s with
  | ok a t => exact ⟨by simpa only [hx] using h, by simpa only [hx] using h'⟩
  | error e t => exact ⟨by simpa only [hx] using h, by simpa only [hx] using h'⟩

/-- Two descriptions of one end meet. -/
theorem Ends.absurd (h : Ends x s Q R) (h' : Ends x s Q' R') (hQ : ∀ a t, Q a t → ¬ Q' a t)
    (hR : ∀ e t, R e t → ¬ R' e t) : False := by
  unfold Ends at *
  cases hx : x s with
  | ok a t => exact hQ a t (by simpa only [hx] using h) (by simpa only [hx] using h')
  | error e t => exact hR e t (by simpa only [hx] using h) (by simpa only [hx] using h')

/-- A computation that cannot fail ends in a state that satisfies all it ends with. -/
theorem Ends.exists_and (h : Ends x s Q fun _ _ => False) (h' : Ends x s Q' R) :
    ∃ a t, Q a t ∧ Q' a t := by
  unfold Ends at *
  cases hx : x s with
  | ok a t => exact ⟨a, t, by simpa only [hx] using h, by simpa only [hx] using h'⟩
  | error e t => simp only [hx] at h

/-! ## A part of the state, and a caught error -/

section Zoom

variable {τ : Type} {part : τ → σ} {put : τ → σ → τ} {u : τ}

/-- A computation on a part of the state. -/
def zoom (part : τ → σ) (put : τ → σ → τ) (x : EStateM ε σ α) : EStateM ε τ α := fun u =>
  match x (part u) with
  | .ok a t => .ok a (put u t)
  | .error e t => .error e (put u t)

@[simp] theorem ends_zoom {Q : α → τ → Prop} {R : ε → τ → Prop} :
    Ends (zoom part put x) u Q R
      ↔ Ends x (part u) (fun a t => Q a (put u t)) fun e t => R e (put u t) := by
  simp only [Ends, zoom]
  cases x (part u) <;> rfl

end Zoom

/-- The errors in `c` are caught where they are thrown, with the state as it is then. -/
def catchAs (c : ε → Bool) (a : α) (x : EStateM ε σ α) : EStateM ε σ α := fun s =>
  match x s with
  | .ok b t => .ok b t
  | .error e t => if c e then .ok a t else .error e t

@[simp] theorem ends_catchAs {c : ε → Bool} {a : α} :
    Ends (catchAs c a x) s Q R ↔ Ends x s Q fun e t => if c e then Q a t else R e t := by
  simp only [Ends, catchAs]
  rcases x s with ⟨b, t⟩ | ⟨e, t⟩
  · rfl
  · by_cases h : c e <;> simp [h]

end Lib
