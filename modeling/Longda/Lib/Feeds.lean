import Longda.Lib.Machine

/-!
# Machines that are fed bytes

A machine whose labels are lists of bytes takes a stream portion by portion. `Feeds size fin got n`
says that it takes exactly `n` bytes more: in each state on the way it waits for a portion `size`
allows there, neither empty nor more than is left, and goes on whatever the portion holds; when the
`n` bytes are taken `fin` holds of all of them and the state reached. What such a state is fed, some
run takes (`Feeds.run`).
-/

namespace Lib

namespace Machine

variable {σ β : Type*} (M : Machine σ (List β)) (size : σ → ℕ → ℕ → Prop) (fin : List β → σ → Prop)

inductive Feeds : List β → ℕ → σ → Prop
  | done {got : List β} {s : σ} : fin got s → Feeds got 0 s
  | next {got : List β} {n k : ℕ} {s : σ} (t : List β → σ) : size s n k → 0 < k → k ≤ n →
    (∀ data, data.length = k → M.step s data = some (t data)) →
    (∀ data, data.length = k → Feeds (got ++ data) (n - k) (t data)) → Feeds got n s

variable {M size fin}

/-- A state is fed by taking nothing, or one portion and then the rest. -/
theorem feeds_iff {got : List β} {n : ℕ} {s : σ} :
    M.Feeds size fin got n s ↔ (n = 0 ∧ fin got s) ∨
      ∃ k, size s n k ∧ 0 < k ∧ k ≤ n ∧ ∀ data, data.length = k →
        ∃ t, M.step s data = some t ∧ M.Feeds size fin (got ++ data) (n - k) t := by
  constructor
  · rintro (hfin | ⟨t, hsize, h0, hn, hstep, hrest⟩)
    · exact .inl ⟨rfl, hfin⟩
    · exact .inr ⟨_, hsize, h0, hn, fun data hd => ⟨t data, hstep data hd, hrest data hd⟩⟩
  · rintro (⟨rfl, hfin⟩ | ⟨k, hsize, h0, hn, h⟩)
    · exact .done hfin
    · have : Nonempty σ := ⟨s⟩
      choose! t ht using h
      exact .next t hsize h0 hn (fun data hd => (ht data hd).1) fun data hd => (ht data hd).2

@[simp] theorem feeds_zero_iff {got : List β} {s : σ} : M.Feeds size fin got 0 s ↔ fin got s := by
  rw [feeds_iff]
  constructor
  · rintro (⟨-, hfin⟩ | ⟨k, -, h0, hk, -⟩)
    · exact hfin
    · omega
  · exact fun hfin => .inl ⟨rfl, hfin⟩

/-- The bytes a state is fed are those of a run, and `fin` holds at its end. -/
theorem Feeds.run {got : List β} {n : ℕ} {s : σ} (h : M.Feeds size fin got n s) :
    ∀ bs : List β, bs.length = n → ∃ datas t, datas.flatten = bs ∧ M.run s datas = some t
      ∧ fin (got ++ bs) t := by
  induction h with
  | @done got s hfin =>
    intro bs hbs
    obtain rfl := List.length_eq_zero_iff.1 hbs
    exact ⟨[], s, rfl, rfl, by simpa using hfin⟩
  | @next got n k s t _ _ hn hstep _ ih =>
    intro bs hbs
    have hk : (bs.take k).length = k := by simp [hbs, hn]
    obtain ⟨datas, u, hd, hr, hu⟩ := ih (bs.take k) hk (bs.drop k) (by simp [hbs])
    refine ⟨bs.take k :: datas, u, ?_, ?_, ?_⟩
    · simp [hd]
    · simp [hstep _ hk, hr]
    · simpa [List.append_assoc] using hu

end Machine

end Lib
