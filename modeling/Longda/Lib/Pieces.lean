import Longda.Lib.Machine

/-!
# Streams cut into pieces

A machine that takes a stream piece by piece. Of a stream that ends somewhere within the pieces, the
whole pieces that are there and what is left of the next one are told apart (`exists_cut`), and so
are the whole blocks of pieces, each the labels of one round of the machine, from the round that is
under way (`exists_rounds`).
-/

namespace Lib

variable {α : Type*}

/-- A beginning of a stream of pieces is some of the pieces and less than the next. -/
theorem exists_cut {pieces : List (List α)} {stream : List α} (h : stream <+: pieces.flatten) :
    ∃ cut rest, cut <+: pieces ∧ stream = cut.flatten ++ rest
      ∧ (∀ p, cut ++ [p] <+: pieces → rest.length < p.length) ∧ (cut = pieces → rest = []) := by
  induction pieces generalizing stream with
  | nil =>
    obtain rfl : stream = [] := List.prefix_nil.1 h
    exact ⟨[], [], List.nil_prefix, rfl, fun p hp => by simp at hp, fun _ => rfl⟩
  | cons q pieces ih =>
    rw [List.flatten_cons] at h
    by_cases hq : q.length ≤ stream.length
    · obtain ⟨stream, rfl⟩ := List.prefix_of_prefix_length_le (List.prefix_append _ _) h hq
      rw [List.prefix_append_right_inj] at h
      obtain ⟨cut, rest, hcut, rfl, hnext, hall⟩ := ih h
      refine ⟨q :: cut, rest, by simpa using hcut, by simp, fun p hp => ?_, fun he => ?_⟩
      · exact hnext p (by simpa using hp)
      · exact hall (List.cons.inj he).2
    · refine ⟨[], stream, List.nil_prefix, rfl, fun p hp => ?_, fun he => by simp at he⟩
      obtain rfl : p = q := by simpa using hp
      exact Nat.lt_of_not_le hq

namespace Machine

variable {σ ℓ : Type*} (M : Machine σ ℓ)

/-- The labels lead from `s` to `t` through states that satisfy `Q`, but for the last. -/
def Leads (Q : σ → Prop) : σ → List ℓ → σ → Prop
  | s, [], t => s = t
  | s, l :: ls, t => Q s ∧ ∃ u, M.step s l = some u ∧ Leads Q u ls t

variable {M} {Q : σ → Prop}

theorem Leads.run : ∀ {ls : List ℓ} {s t : σ}, M.Leads Q s ls t → M.run s ls = some t
  | [], _, _, h => congrArg some h
  | l :: ls, s, t, ⟨_, u, hu, h⟩ => by rw [run_cons, hu, Option.bind_some, h.run]

theorem Leads.append : ∀ {ls ks : List ℓ} {s t u : σ}, M.Leads Q s ls t → M.Leads Q t ks u →
    M.Leads Q s (ls ++ ks) u
  | [], _, _, _, _, h, k => by
    obtain rfl := h
    exact k
  | _ :: _, _, _, _, _, ⟨hq, v, hv, h⟩, k => ⟨hq, v, hv, h.append k⟩

/-- Some of the labels, but not all, lead to a state that satisfies `Q`. -/
theorem Leads.partway : ∀ {ls ks : List ℓ} {s t : σ}, M.Leads Q s ls t → ks <+: ls → ks ≠ ls →
    ∃ u, M.run s ks = some u ∧ Q u
  | [], ks, _, _, _, hk, hne => absurd (List.prefix_nil.1 hk) hne
  | _ :: _, [], s, _, ⟨hq, _⟩, _, _ => ⟨s, rfl, hq⟩
  | l :: ls, k :: ks, s, t, ⟨_, u, hu, h⟩, hk, hne => by
    obtain ⟨rfl, hks⟩ := List.cons_prefix_cons.1 hk
    obtain ⟨v, hv, hqv⟩ := h.partway hks fun he => hne (by rw [he])
    exact ⟨v, by rw [run_cons, hu, Option.bind_some, hv], hqv⟩

/-! ## Rounds -/

variable {β : Type*} (R : σ → β → σ → Prop)

/-- One round after the other. -/
inductive Rounds : σ → List β → σ → Prop
  | nil (s : σ) : Rounds s [] s
  | cons {s t u : σ} {b : β} {bs : List β} : R s b t → Rounds t bs u → Rounds s (b :: bs) u

variable {R} {labels : β → List ℓ} {I : σ → Prop} {Q : σ → σ → Prop}

/-- Where each block of labels is a round between states in `I`, and `Q` holds of the beginning of a
round and every state within it, a run on some of the labels of many blocks is whole rounds and a
round that is under way. -/
theorem exists_rounds (hround : ∀ s b, I s → ∃ t, M.Leads (Q s) s (labels b) t ∧ I t ∧ R s b t)
    (hrefl : ∀ s, Q s s) : ∀ {bs : List β} {ls : List ℓ} {s : σ}, I s → ls <+: bs.flatMap labels →
      ∃ done todo u t begun, bs = done ++ todo ∧ ls = done.flatMap labels ++ begun
        ∧ Rounds R s done u ∧ I u ∧ M.run s ls = some t ∧ M.run u begun = some t ∧ Q u t
        ∧ (todo = [] → begun = []) ∧ ∀ b ∈ todo.head?, begun <+: labels b ∧ begun ≠ labels b
  | [], ls, s, hs, hl => by
    obtain rfl : ls = [] := List.prefix_nil.1 hl
    exact ⟨[], [], s, s, [], rfl, rfl, .nil s, hs, rfl, rfl, hrefl s, fun _ => rfl, nofun⟩
  | b :: bs, ls, s, hs, hl => by
    obtain ⟨t, hlead, ht, hR⟩ := hround s b hs
    rw [List.flatMap_cons] at hl
    by_cases hb : labels b <+: ls
    · obtain ⟨ls, rfl⟩ := hb
      rw [List.prefix_append_right_inj] at hl
      obtain ⟨done, todo, u, v, begun, rfl, rfl, hrounds, hu, hrun, hbegun, hQ, hend, hnext⟩ :=
        exists_rounds hround hrefl ht hl
      refine ⟨b :: done, todo, u, v, begun, rfl, by simp, .cons hR hrounds, hu, ?_, hbegun, hQ,
        hend, hnext⟩
      rw [run_append, hlead.run, Option.bind_some, hrun]
    · have hbegun : ls <+: labels b :=
        (List.prefix_or_prefix_of_prefix hl (List.prefix_append _ _)).resolve_right hb
      have hne : ls ≠ labels b := fun he => hb (he ▸ List.prefix_refl _)
      obtain ⟨v, hv, hQ⟩ := hlead.partway hbegun hne
      refine ⟨[], b :: bs, s, v, ls, rfl, rfl, .nil s, hs, hv, hv, hQ, nofun, ?_⟩
      intro c hc
      obtain rfl : b = c := Option.some.inj hc
      exact ⟨hbegun, hne⟩

end Machine

end Lib
