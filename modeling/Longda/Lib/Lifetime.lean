import Longda.Lib.Machine
import Mathlib.Data.List.Infix

/-!
# What a run makes and keeps

The states of a machine show a value under each key, or none (`view`), and a label says what it
makes of a value that is there (`upd`). A value is kept if no step takes it away or makes anything
else of it. Where it is known under which condition a single step keeps all values (`hstep`), what a
run makes it keeps exactly if its steps meet the condition (`keptFromBirth_iff`).
-/

namespace Lib

namespace Machine

variable {σ ℓ κ ν : Type*} (step : σ → ℓ → σ) (view : σ → κ → Option ν) (upd : κ → ℓ → ν → ν)

/-- What labels make of a value. -/
def updates (k : κ) (ls : List ℓ) (v : ν) : ν := ls.foldl (fun v l => upd k l v) v

/-- In every state along the labels the key has what they make of the value. -/
def Kept (k : κ) (s : σ) (v : ν) (ls : List ℓ) : Prop :=
  ∀ done, done <+: ls → view (done.foldl step s) k = some (updates upd k done v)

/-- What a step makes is kept from then on. -/
def KeptFromBirth (s : σ) (ls : List ℓ) : Prop :=
  ∀ pre l post, ls = pre ++ l :: post → ∀ k v, view (pre.foldl step s) k = none →
    view (step (pre.foldl step s) l) k = some v →
    Kept step view upd k (step (pre.foldl step s) l) v post

variable {step view upd} {k : κ} {s : σ} {v : ν} {l : ℓ} {ls : List ℓ}

theorem kept_cons : Kept step view upd k s v (l :: ls) ↔
    view s k = some v ∧ Kept step view upd k (step s l) (upd k l v) ls := by
  constructor
  · intro h
    refine ⟨h [] (List.nil_prefix), fun done hdone => ?_⟩
    exact h (l :: done) (List.cons_prefix_cons.2 ⟨rfl, hdone⟩)
  · rintro ⟨hs, h⟩ done hdone
    rcases done with _ | ⟨l', done⟩
    · exact hs
    · obtain ⟨rfl, hprefix⟩ := List.cons_prefix_cons.1 hdone
      exact h done hprefix

theorem keptFromBirth_cons : KeptFromBirth step view upd s (l :: ls) ↔
    (∀ k v, view s k = none → view (step s l) k = some v →
      Kept step view upd k (step s l) v ls) ∧ KeptFromBirth step view upd (step s l) ls := by
  constructor
  · intro h
    refine ⟨h [] l ls rfl, fun pre l' post hls => ?_⟩
    exact h (l :: pre) l' post (by rw [hls, List.cons_append])
  · rintro ⟨hl, h⟩ pre l' post hls
    rcases pre with _ | ⟨l'', pre⟩
    · obtain ⟨rfl, rfl⟩ := List.cons.inj hls
      exact hl
    · obtain ⟨rfl, rfl⟩ := List.cons.inj hls
      exact h pre l' post rfl

/-- What is there at the start and what a run makes, it keeps exactly if its steps meet `C`. -/
theorem kept_iff {C : σ → ℓ → Prop}
    (hstep : ∀ s l, C s l ↔ ∀ k v, view s k = some v → view (step s l) k = some (upd k l v))
    (ls : List ℓ) (s : σ) :
    ((∀ k v, view s k = some v → Kept step view upd k s v ls) ∧ KeptFromBirth step view upd s ls)
      ↔ (total step).Meets C s ls := by
  induction ls generalizing s with
  | nil =>
    refine iff_of_true ⟨fun k v hv done hdone => ?_, fun pre l post hls => ?_⟩ trivial
    · rw [List.prefix_nil.1 hdone]
      exact hv
    · exact absurd hls (by simp)
  | cons l ls ih =>
    rw [total_meets_cons, ← ih, keptFromBirth_cons, hstep]
    constructor
    · rintro ⟨hs, hborn, hlater⟩
      have hkeep : ∀ k v, view s k = some v → view (step s l) k = some (upd k l v) :=
        fun k v hv => (kept_cons.1 (hs k v hv)).2 [] List.nil_prefix
      refine ⟨hkeep, fun k v hv => ?_, hlater⟩
      rcases hold : view s k with _ | u
      · exact hborn k v hold hv
      · obtain rfl := Option.some.inj ((hkeep k u hold).symm.trans hv)
        exact (kept_cons.1 (hs k u hold)).2
    · rintro ⟨hkeep, hnext, hlater⟩
      refine ⟨fun k v hv => kept_cons.2 ⟨hv, hnext k _ (hkeep k v hv)⟩, fun k v _ hv => ?_, hlater⟩
      exact hnext k v hv

/-- Where nothing is there at the start. -/
theorem keptFromBirth_iff {C : σ → ℓ → Prop}
    (hstep : ∀ s l, C s l ↔ ∀ k v, view s k = some v → view (step s l) k = some (upd k l v))
    (hs : ∀ k, view s k = none) (ls : List ℓ) :
    KeptFromBirth step view upd s ls ↔ (total step).Meets C s ls := by
  rw [← kept_iff hstep]
  refine (and_iff_right fun k v hv => ?_).symm
  rw [hs] at hv
  cases hv

end Machine

end Lib
