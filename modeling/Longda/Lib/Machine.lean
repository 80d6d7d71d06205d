import Mathlib.Algebra.GroupWithZero.Nat
import Mathlib.Data.List.Basic
import Mathlib.Data.Option.Basic

/-!
# Machines and what their runs keep

A machine takes one labelled step at a time, or refuses the label. A run is a list of labels none
of which is refused (`run`), and `Meets C` says that every step of it meets a condition on the
state before the step and the label. What the start gives and every such step keeps, every such
run keeps (`run_inv`).
-/

namespace Lib

/-- A labelled machine whose step may refuse a label. -/
structure Machine (σ ℓ : Type*) where
  step : σ → ℓ → Option σ

namespace Machine

variable {σ ℓ : Type*} (M : Machine σ ℓ)

/-- The state after the labels, if none is refused. -/
def run : σ → List ℓ → Option σ
  | s, [] => some s
  | s, l :: ls => (M.step s l).bind fun t => run t ls

/-- Every step taken along the labels meets `C`. -/
def Meets (C : σ → ℓ → Prop) : σ → List ℓ → Prop
  | _, [] => True
  | s, l :: ls => C s l ∧ ∀ t, M.step s l = some t → Meets C t ls

instance decidableMeets (C : σ → ℓ → Prop) [∀ s l, Decidable (C s l)] :
    ∀ s ls, Decidable (M.Meets C s ls)
  | _, [] => isTrue trivial
  | s, l :: ls =>
    match h : M.step s l with
    | none => decidable_of_iff (C s l) (by simp [Meets, h])
    | some t =>
      have := decidableMeets C t ls
      decidable_of_iff (C s l ∧ M.Meets C t ls) (by simp [Meets, h])

/-- Every state the labels lead through, the last included, satisfies `P`. -/
def Throughout (P : σ → Prop) : σ → List ℓ → Prop
  | s, [] => P s
  | s, l :: ls => P s ∧ ∀ t, M.step s l = some t → Throughout P t ls

theorem Throughout.head {P : σ → Prop} {s : σ} {ls : List ℓ} (h : M.Throughout P s ls) : P s := by
  cases ls with
  | nil => exact h
  | cons l ls => exact h.1

@[simp] theorem run_nil (s : σ) : M.run s [] = some s := rfl

@[simp] theorem run_cons (s : σ) (l : ℓ) (ls : List ℓ) :
    M.run s (l :: ls) = (M.step s l).bind fun t => M.run t ls := rfl

theorem run_append (s : σ) (ls ks : List ℓ) :
    M.run s (ls ++ ks) = (M.run s ls).bind fun t => M.run t ks := by
  induction ls generalizing s with
  | nil => rfl
  | cons l ls ih =>
    simp only [List.cons_append, run_cons, Option.bind_assoc]
    exact congrArg _ (funext fun t => ih t)

/-- What every step meeting `C` keeps, every run whose steps meet `C` keeps. -/
theorem run_inv {C : σ → ℓ → Prop} {I : σ → Prop}
    (hstep : ∀ s l t, I s → C s l → M.step s l = some t → I t) :
    ∀ (ls : List ℓ) {s t : σ}, I s → M.Meets C s ls → M.run s ls = some t → I t
  | [], s, t, hs, _, hr => by
    simp only [run_nil, Option.some.injEq] at hr
    exact hr ▸ hs
  | l :: ls, s, t, hs, hc, hr => by
    rw [run_cons, Option.bind_eq_some_iff] at hr
    obtain ⟨u, hu, hr⟩ := hr
    exact run_inv hstep ls (hstep s l u hs hc.1 hu) (hc.2 u hu) hr

theorem meets_of_all {C : σ → ℓ → Prop} (h : ∀ s l, C s l) :
    ∀ (ls : List ℓ) (s : σ), M.Meets C s ls
  | [], _ => trivial
  | l :: ls, s => ⟨h s l, fun t _ => meets_of_all h ls t⟩

theorem meets_true (ls : List ℓ) (s : σ) : M.Meets (fun _ _ => True) s ls :=
  M.meets_of_all (fun _ _ => trivial) ls s

theorem meets_of_forall {C : ℓ → Prop} : ∀ {ls : List ℓ} (s : σ), (∀ l ∈ ls, C l) →
    M.Meets (fun _ l => C l) s ls
  | [], _, _ => trivial
  | l :: _, _, h =>
    ⟨h l List.mem_cons_self, fun t _ =>
      meets_of_forall t fun k hk => h k (List.mem_cons_of_mem l hk)⟩

theorem meets_append {C : σ → ℓ → Prop} {ks : List ℓ} : ∀ {ls : List ℓ} {s : σ},
    M.Meets C s (ls ++ ks) ↔ M.Meets C s ls ∧ ∀ t, M.run s ls = some t → M.Meets C t ks
  | [], s => by simp [Meets]
  | l :: ls, s => by
    simp only [List.cons_append, Meets, run_cons, Option.bind_eq_some_iff, meets_append]
    constructor
    · exact fun ⟨hc, h⟩ => ⟨⟨hc, fun t ht => (h t ht).1⟩, fun u ⟨t, ht, hu⟩ => (h t ht).2 u hu⟩
    · exact fun ⟨⟨hc, h⟩, hk⟩ => ⟨hc, fun t ht => ⟨h t ht, fun u hu => hk u ⟨t, ht, hu⟩⟩⟩

/-- What the labels are such as is met beside what the steps meet. -/
theorem Meets.and_forall {C : σ → ℓ → Prop} {D : ℓ → Prop} : ∀ {ls : List ℓ} {s : σ},
    M.Meets C s ls → (∀ l ∈ ls, D l) → M.Meets (fun s l => C s l ∧ D l) s ls
  | [], _, _, _ => trivial
  | l :: _, _, h, hd => ⟨⟨h.1, hd l List.mem_cons_self⟩, fun t ht =>
      (h.2 t ht).and_forall fun k hk => hd k (List.mem_cons_of_mem l hk)⟩

/-- Where what a step meets, with what holds before it, gives `D`, a run meets `D`. -/
theorem Meets.of_run {C D : σ → ℓ → Prop} {I : σ → Prop}
    (hstep : ∀ s l t, I s → C s l → M.step s l = some t → I t ∧ D s l) :
    ∀ {ls : List ℓ} {s t : σ}, I s → M.Meets C s ls → M.run s ls = some t → M.Meets D s ls
  | [], _, _, _, _, _ => trivial
  | l :: ls, s, t, hs, hc, hr => by
    rw [run_cons, Option.bind_eq_some_iff] at hr
    obtain ⟨u, hu, hr⟩ := hr
    obtain ⟨hI, hd⟩ := hstep s l u hs hc.1 hu
    refine ⟨hd, fun v hv => ?_⟩
    obtain rfl : u = v := Option.some.inj (hu.symm.trans hv)
    exact Meets.of_run hstep hI (hc.2 u hu) hr

theorem Meets.cons {C : σ → ℓ → Prop} {s t : σ} {l : ℓ} {ls : List ℓ} (hs : M.step s l = some t)
    (hc : C s l) (h : M.Meets C t ls) : M.Meets C s (l :: ls) :=
  ⟨hc, fun _ ht => Option.some.inj (hs.symm.trans ht) ▸ h⟩

/-- What every step keeps, every run keeps. -/
theorem run_inv_of_step {I : σ → Prop} (hstep : ∀ s l t, I s → M.step s l = some t → I t)
    (ls : List ℓ) {s t : σ} (hs : I s) (hr : M.run s ls = some t) : I t :=
  M.run_inv (C := fun _ _ => True) (fun s l t hs _ => hstep s l t hs) ls hs
    (M.meets_true ls s) hr

/-- Where every step is allowed and keeps `I`, every list of labels is a run and keeps it. -/
theorem run_exists {I : σ → Prop} (hstep : ∀ s l, I s → ∃ t, M.step s l = some t ∧ I t) :
    ∀ (ls : List ℓ) {s : σ}, I s → ∃ t, M.run s ls = some t ∧ I t
  | [], s, hs => ⟨s, rfl, hs⟩
  | l :: ls, s, hs => by
    obtain ⟨u, hu, hI⟩ := hstep s l hs
    rw [run_cons, hu]
    exact run_exists hstep ls hI

/-- What holds after a step only if it held before, holds all along a run that ends in it. -/
theorem run_back {P : σ → Prop} (hback : ∀ s l t, M.step s l = some t → P t → P s) :
    ∀ (ls : List ℓ) {s t : σ}, M.run s ls = some t → P t → P s
  | [], s, t, hr, ht => by
    simp only [run_nil, Option.some.injEq] at hr
    exact hr ▸ ht
  | l :: ls, s, t, hr, ht => by
    rw [run_cons, Option.bind_eq_some_iff] at hr
    obtain ⟨u, hu, hr⟩ := hr
    exact hback s l u hu (run_back hback ls hr ht)

/-- Where a step from a state with `P` leads to such a state exactly if it meets `C`, the labels are
a run through such states exactly if every step meets `C`. -/
theorem runs_iff_meets {P : σ → Prop} {C : σ → ℓ → Prop}
    (hstep : ∀ s l, P s → ((∃ t, M.step s l = some t ∧ P t) ↔ C s l)) (ls : List ℓ) {s : σ}
    (hs : P s) : (M.run s ls).isSome ∧ M.Throughout P s ls ↔ M.Meets C s ls := by
  induction ls generalizing s with
  | nil => exact iff_of_true ⟨rfl, hs⟩ trivial
  | cons l ls ih =>
    rw [run_cons, Throughout, Meets, and_iff_right hs, ← hstep s l hs]
    rcases ht : M.step s l with _ | t
    · simp
    · simp only [Option.bind_some, Option.some.injEq, forall_eq', exists_eq_left']
      constructor
      · intro ⟨hrun, hall⟩
        have ht : P t := hall.head
        exact ⟨ht, (ih ht).1 ⟨hrun, hall⟩⟩
      · intro ⟨ht, hmeets⟩
        exact (ih ht).2 hmeets

/-- Where each step leads from `P` to `P` exactly if it meets `C`, a run stays in `P` exactly if its
steps meet `C`. The steps need to be such only as long as `B` holds, and it never holds again once
it does not. -/
theorem throughout_iff_meets {B I P : σ → Prop} {C : σ → ℓ → Prop}
    (hback : ∀ s l t, M.step s l = some t → B t → B s)
    (hstep : ∀ s l t, B t → I s → P s → M.step s l = some t → I t ∧ (P t ↔ C s l)) :
    ∀ (ls : List ℓ) {s t : σ}, B t → I s → P s → M.run s ls = some t →
      (M.Throughout P s ls ↔ M.Meets C s ls)
  | [], s, t, _, _, hp, _ => iff_of_true hp trivial
  | l :: ls, s, t, hb, hi, hp, hr => by
    rw [run_cons, Option.bind_eq_some_iff] at hr
    obtain ⟨u, hu, hr⟩ := hr
    obtain ⟨hi', hiff⟩ := hstep s l u (M.run_back hback ls hr hb) hi hp hu
    simp only [Throughout, Meets, hu, Option.some.injEq, forall_eq', hp, true_and]
    constructor
    · intro h
      have hpu := h.head
      exact ⟨hiff.1 hpu, (throughout_iff_meets hback hstep ls hb hi' hpu hr).1 h⟩
    · rintro ⟨hc, h⟩
      exact (throughout_iff_meets hback hstep ls hb hi' (hiff.2 hc) hr).2 h

/-- What every step meeting `C` keeps holds in every state of a run whose steps meet `C`. -/
theorem throughout_of_meets {C : σ → ℓ → Prop} {I P : σ → Prop} (hI : ∀ s, I s → P s)
    (hstep : ∀ s l t, I s → C s l → M.step s l = some t → I t) :
    ∀ (ls : List ℓ) {s : σ}, I s → M.Meets C s ls → M.Throughout P s ls
  | [], s, hs, _ => hI s hs
  | l :: ls, s, hs, hc =>
    ⟨hI s hs, fun t ht => throughout_of_meets hI hstep ls (hstep s l t hs hc.1 ht) (hc.2 t ht)⟩

/-- The steps along the labels that are such as `C` says. -/
def tally (C : σ → ℓ → Bool) : σ → List ℓ → ℕ
  | _, [] => 0
  | s, l :: ls => (C s l).toNat + (M.step s l).elim 0 fun t => tally C t ls

/-- Where a step that is such as `C` says is paid for by what it takes off the potential, and each
label raises the potential by its price at most, the prices of a run pay for all such steps. -/
theorem tally_le {I : σ → Prop} {C : σ → ℓ → Bool} {potential : σ → ℕ} {price : ℓ → ℕ}
    (hstep : ∀ s l t, I s → M.step s l = some t →
      I t ∧ potential t + (C s l).toNat ≤ potential s + price l) :
    ∀ (ls : List ℓ) {s t : σ}, I s → M.run s ls = some t →
      potential t + M.tally C s ls ≤ potential s + (ls.map price).sum
  | [], s, t, _, hr => by
    simp only [run_nil, Option.some.injEq] at hr
    simp [hr, tally]
  | l :: ls, s, t, hs, hr => by
    rw [run_cons, Option.bind_eq_some_iff] at hr
    obtain ⟨u, hu, hr⟩ := hr
    obtain ⟨hI, hle⟩ := hstep s l u hs hu
    have := tally_le hstep ls hI hr
    simp only [tally, hu, Option.elim_some, List.map_cons, List.sum_cons]
    omega

/-- The machine that refuses no label. -/
def total (step : σ → ℓ → σ) : Machine σ ℓ where
  step := fun s l => some (step s l)

theorem total_meets_cons {step : σ → ℓ → σ} {C : σ → ℓ → Prop} {s : σ} {l : ℓ} {ls : List ℓ} :
    (total step).Meets C s (l :: ls) ↔ C s l ∧ (total step).Meets C (step s l) ls :=
  and_congr_right fun _ => ⟨fun h => h _ rfl, fun h _ ht => Option.some.inj ht ▸ h⟩

/-- Where each step is a run of `N` as `f` shows it, so is each run. The steps need to be such only
as long as `P` holds, and it never holds again once it does not. -/
theorem run_sim {τ κ : Type*} (N : Machine τ κ) (f : σ → τ) {P : σ → Prop}
    (hback : ∀ s l t, M.step s l = some t → P t → P s)
    (hsim : ∀ s l t, P t → M.step s l = some t → ∃ ks, N.run (f s) ks = some (f t)) :
    ∀ (ls : List ℓ) {s t : σ}, P t → M.run s ls = some t → ∃ ks, N.run (f s) ks = some (f t)
  | [], s, t, _, hr => by
    simp only [run_nil, Option.some.injEq] at hr
    exact ⟨[], hr ▸ rfl⟩
  | l :: ls, s, t, ht, hr => by
    rw [run_cons, Option.bind_eq_some_iff] at hr
    obtain ⟨u, hu, hr⟩ := hr
    obtain ⟨ks, hks⟩ := hsim s l u (M.run_back hback ls hr ht) hu
    obtain ⟨js, hjs⟩ := run_sim N f hback hsim ls ht hr
    exact ⟨ks ++ js, by rw [N.run_append, hks, Option.bind_some, hjs]⟩

/-- A machine without a choice has one state to stop in. -/
theorem stop_unique (N : Machine σ Unit) : ∀ {ls ks : List Unit} {s t u : σ},
    N.run s ls = some t → N.step t () = none → N.run s ks = some u → N.step u () = none → t = u
  | [], [], s, t, u, ht, _, hu, _ => by
    simp only [run_nil, Option.some.injEq] at ht hu
    exact ht.symm.trans hu
  | [], () :: ks, s, t, u, ht, hst, hu, _ => by
    simp only [run_nil, Option.some.injEq] at ht
    rw [run_cons, ht, hst, Option.bind_none] at hu
    cases hu
  | () :: ls, [], s, t, u, ht, _, hu, hsu => by
    simp only [run_nil, Option.some.injEq] at hu
    rw [run_cons, hu, hsu, Option.bind_none] at ht
    cases ht
  | () :: ls, () :: ks, s, t, u, ht, hst, hu, hsu => by
    rw [run_cons, Option.bind_eq_some_iff] at ht hu
    obtain ⟨v, hv, ht⟩ := ht
    obtain ⟨w, hw, hu⟩ := hu
    obtain rfl : v = w := Option.some.inj (hv.symm.trans hw)
    exact stop_unique N ht hst hu hsu

end Machine

end Lib
